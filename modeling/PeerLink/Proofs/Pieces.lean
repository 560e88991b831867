import PeerLink.Line
import Mathlib.Tactic.Common

/-! # Streams in pieces

A stream comes to a decoder piece by piece, and after each piece all that can be had is decoded.

* `Decoder.inPieces`: what is read that way, up to a fatal error.
* `Decoder.Reads`: answers one after the other, none of them the last.
* `Decoder.Patient`: a decoder to which bytes that come later are nothing new: what it has found in
  front of them stays found.
* `Decoder.Patient.inPieces_spec`: however a stream is cut, the answers are those that the whole of
  it begins with.
-/

namespace PeerLink
set_option autoImplicit false

/-- The last nothing is not listed. -/
def Decoding.listed : Decoding → List Decoding
  | .ok none => []
  | r => [r]

theorem Decoding.isLast_cases {r : Decoding} (h : r.isLast = true) :
    r = .ok none ∨ ∃ e, r = .error e ∧ e.isFatal = true := by
  cases r with
  | error e => exact .inr ⟨e, rfl, h⟩
  | ok o =>
    cases o with
    | none => exact .inl rfl
    | some i => cases h

structure Decoder (δ : Type) where
  feed : δ → Bytes → δ
  next : δ → Decoding × δ
  /-- How many bytes have come and not been read. -/
  held : δ → Nat

namespace Decoder
variable {δ : Type} (D : Decoder δ)

def drain (d : δ) : List Decoding × δ := Decoding.drainFor D.next (D.held d + 1) d

/-- Nothing is read after a fatal error. -/
def inPieces : List Bytes → δ → List Decoding × δ
  | [], d => ([], d)
  | c :: cs, d =>
    let (rs, d) := D.drain (D.feed d c)
    if rs.any Decoding.isLast then (rs, d)
    else
      let (rs', d) := inPieces cs d
      (rs ++ rs', d)

/-- The decoder gives answers none of which is the last. -/
inductive Reads : δ → List Decoding → δ → Prop
  | nil (d : δ) : Reads d [] d
  | cons {d d' d'' : δ} {r : Decoding} {rs : List Decoding} (next : D.next d = (r, d'))
      (more : r.isLast = false) (rest : Reads d' rs d'') : Reads d (r :: rs) d''

/-- The last answer, with the bytes still to come: there are none when bytes are missing. -/
structure Ends (d : δ) (later : Bytes) (r : Decoding) (d' : δ) : Prop where
  next : D.next d = (r, d')
  last : r.isLast = true
  all : r = .ok none → later = []

/-- A decoder to which it does not matter when bytes come. -/
structure Patient : Prop where
  feed_nil : ∀ d, D.feed d [] = d
  feed_feed : ∀ d x y, D.feed (D.feed d x) y = D.feed d (x ++ y)
  found : ∀ {d d' : δ} {r : Decoding} (x : Bytes), D.next d = (r, d') → r.isLast = false →
    D.next (D.feed d x) = (r, D.feed d' x)
  missing : ∀ {d d' : δ} (x : Bytes), D.next d = (.ok none, d') →
    D.next (D.feed d x) = D.next (D.feed d' x)
  shrinks : ∀ {d d' : δ} {r : Decoding}, D.next d = (r, d') → r.isLast = false →
    D.held d' < D.held d

variable {D}

/-! ## Answers -/

theorem Reads.trans {d d' d'' : δ} {rs rs' : List Decoding} (h : D.Reads d rs d')
    (h' : D.Reads d' rs' d'') : D.Reads d (rs ++ rs') d'' := by
  induction h with
  | nil => exact h'
  | cons next more _ ih => exact .cons next more (ih h')

theorem Reads.not_last {d d' : δ} {rs : List Decoding} (h : D.Reads d rs d') :
    rs.any Decoding.isLast = false := by
  induction h with
  | nil => rfl
  | cons _ more _ ih => rw [List.any_cons, more, ih, Bool.or_self]

/-- Of two ways to read, the one that goes on to the last answer has the answers of the other. -/
theorem Reads.rest {d a b : δ} {rs rs' : List Decoding} (h : D.Reads d rs a)
    (h' : D.Reads d rs' b) (hlast : (D.next b).1.isLast = true) :
    ∃ rs'', rs' = rs ++ rs'' ∧ D.Reads a rs'' b := by
  induction h generalizing rs' with
  | nil => exact ⟨rs', rfl, h'⟩
  | cons next more _ ih =>
    cases h' with
    | nil =>
      rw [next, more] at hlast
      cases hlast
    | cons next' _ rest' =>
      rw [next] at next'
      cases next'
      obtain ⟨rs'', rfl, hrest⟩ := ih rest'
      exact ⟨rs'', rfl, hrest⟩

theorem Reads.nil_of_last {a b : δ} {rs : List Decoding} (h : D.Reads a rs b)
    (hlast : (D.next a).1.isLast = true) : rs = [] ∧ a = b := by
  cases h with
  | nil => exact ⟨rfl, rfl⟩
  | cons next more _ =>
    rw [next, more] at hlast
    cases hlast

theorem Reads.unique {d a b : δ} {rs rs' : List Decoding} (h : D.Reads d rs a)
    (h' : D.Reads d rs' b) (ha : (D.next a).1.isLast = true) (hb : (D.next b).1.isLast = true) :
    rs = rs' ∧ a = b := by
  obtain ⟨rs'', rfl, hrest⟩ := h.rest h' hb
  obtain ⟨rfl, rfl⟩ := hrest.nil_of_last ha
  exact ⟨(List.append_nil rs).symm, rfl⟩

theorem drainFor_of_last {d d' : δ} {r : Decoding} (hnext : D.next d = (r, d'))
    (hlast : r.isLast = true) (fuel : Nat) :
    Decoding.drainFor D.next (fuel + 1) d = (r.listed, d') := by
  rw [Decoding.drainFor, hnext]
  obtain rfl | ⟨e, rfl, hfatal⟩ := Decoding.isLast_cases hlast
  · rfl
  · exact if_pos hfatal

theorem drainFor_of_more {d d' : δ} {r : Decoding} (hnext : D.next d = (r, d'))
    (hmore : r.isLast = false) (fuel : Nat) :
    Decoding.drainFor D.next (fuel + 1) d =
      (r :: (Decoding.drainFor D.next fuel d').1, (Decoding.drainFor D.next fuel d').2) := by
  match r, hmore with
  | .ok (some i), _ => rw [Decoding.drainFor, hnext]; rfl
  | .error e, hmore =>
    rw [Decoding.drainFor, hnext]
    exact if_neg (Bool.eq_false_iff.mp hmore)

/-- To drain a decoder is to read up to its last answer. -/
theorem drainFor_spec (hshrinks : ∀ {d d' : δ} {r : Decoding}, D.next d = (r, d') →
    r.isLast = false → D.held d' < D.held d) : ∀ (fuel : Nat) (d : δ), D.held d < fuel →
    ∃ rs d0 r, D.Reads d rs d0 ∧ D.Ends d0 [] r (Decoding.drainFor D.next fuel d).2 ∧
      (Decoding.drainFor D.next fuel d).1 = rs ++ r.listed
  | 0, _, h => absurd h (Nat.not_lt_zero _)
  | fuel + 1, d, h => by
    obtain ⟨r, d', hnext⟩ : ∃ r d', D.next d = (r, d') := ⟨_, _, rfl⟩
    cases hlast : r.isLast with
    | true =>
      rw [drainFor_of_last hnext hlast]
      exact ⟨[], d, r, .nil d, ⟨hnext, hlast, fun _ => rfl⟩, rfl⟩
    | false =>
      have hheld := hshrinks hnext hlast
      obtain ⟨rs, d0, r', hreads, hends, heq⟩ := drainFor_spec hshrinks fuel d' (by omega)
      rw [drainFor_of_more hnext hlast]
      exact ⟨r :: rs, d0, r', .cons hnext hlast hreads, hends, congrArg (r :: ·) heq⟩

/-- To drain a decoder whose answers are known. -/
theorem drain_eq (hshrinks : ∀ {d d' : δ} {r : Decoding}, D.next d = (r, d') →
    r.isLast = false → D.held d' < D.held d) {d d0 d1 : δ} {rs : List Decoding}
    (hreads : D.Reads d rs d0) (hnext : D.next d0 = (.ok none, d1)) : D.drain d = (rs, d1) := by
  obtain ⟨rs', d0', r, hreads', hends, heq⟩ :=
    drainFor_spec hshrinks _ d (Nat.lt_succ_self (D.held d))
  have hnext' := hends.next
  obtain ⟨rfl, rfl⟩ := hreads.unique hreads' (by rw [hnext]; rfl) (by rw [hnext']; exact hends.last)
  rw [hnext] at hnext'
  obtain ⟨rfl, hstate⟩ := Prod.mk.inj hnext'
  exact Prod.ext (heq.trans (List.append_nil rs)) hstate.symm

theorem inPieces_cons {c : Bytes} {d d' : δ} {rs : List Decoding} (cs : List Bytes)
    (hdrain : D.drain (D.feed d c) = (rs, d')) (hmore : rs.any Decoding.isLast = false) :
    D.inPieces (c :: cs) d = (rs ++ (D.inPieces cs d').1, (D.inPieces cs d').2) := by
  simp only [inPieces, hdrain, hmore, Bool.false_eq_true, if_false]

theorem any_listed {r : Decoding} (hlast : r.isLast = true) :
    r.listed.any Decoding.isLast = true ↔ r ≠ .ok none := by
  obtain rfl | ⟨e, rfl, -⟩ := Decoding.isLast_cases hlast
  · simp [Decoding.listed]
  · simpa [Decoding.listed] using hlast

/-! ## Bytes that come later -/

namespace Patient

theorem reads_feed (hD : D.Patient) {d d' : δ} {rs : List Decoding} (h : D.Reads d rs d')
    (x : Bytes) : D.Reads (D.feed d x) rs (D.feed d' x) := by
  induction h with
  | nil d => exact .nil _
  | cons next more _ ih => exact .cons (hD.found x next more) more ih

theorem still_missing (hD : D.Patient) {d d' : δ} (h : D.next d = (.ok none, d')) :
    D.next d' = (.ok none, d') := by
  have hsame := hD.missing [] h
  rw [hD.feed_nil, hD.feed_nil] at hsame
  rw [← hsame, h]

theorem reads_congr {a b d : δ} {rs : List Decoding} (hnext : D.next a = D.next b)
    (h : D.Reads b rs d) : ∃ d', D.Reads a rs d' ∧ D.next d' = D.next d := by
  cases h with
  | nil => exact ⟨a, .nil a, hnext⟩
  | cons next more rest => exact ⟨d, .cons (hnext.trans next) more rest, rfl⟩

/-- However a stream is cut, what is read of its pieces is what the bytes that have come begin
with. Only after a fatal error are there bytes that have not come. -/
theorem inPieces_spec (hD : D.Patient) : ∀ (cs : List Bytes) (d : δ), D.next d = (.ok none, d) →
    ∃ come later rs d0 r, cs.flatten = come ++ later ∧ D.Reads (D.feed d come) rs d0 ∧
      D.Ends d0 later r (D.inPieces cs d).2 ∧ (D.inPieces cs d).1 = rs ++ r.listed
  | [], d, hd => by
    refine ⟨[], [], [], d, .ok none, rfl, ?_, ⟨hd, rfl, fun _ => rfl⟩, rfl⟩
    rw [hD.feed_nil]
    exact .nil d
  | c :: cs, d, hd => by
    obtain ⟨rs, d0, r, hreads, hends, heq⟩ :=
      drainFor_spec hD.shrinks (D.held (D.feed d c) + 1) (D.feed d c) (Nat.lt_succ_self _)
    rw [inPieces, drain]
    generalize Decoding.drainFor D.next (D.held (D.feed d c) + 1) (D.feed d c) = p at hends heq ⊢
    obtain ⟨answers, d1⟩ := p
    subst heq
    by_cases hr : r = .ok none
    · subst hr
      have hnext : D.next d0 = (.ok none, d1) := hends.next
      obtain ⟨come, later, rs', d0', r', hflat, hreads', hends', heq'⟩ :=
        inPieces_spec hD cs d1 (hD.still_missing hnext)
      -- What is read after the first piece is read whether it was drained before or not.
      obtain ⟨d2, hreads2, hnext2⟩ := reads_congr (hD.missing come hnext) hreads'
      have hfirst := hD.reads_feed hreads come
      rw [hD.feed_feed] at hfirst
      refine ⟨c ++ come, later, rs ++ rs', d2, r', ?_, hfirst.trans hreads2, ?_⟩
      · rw [List.flatten_cons, hflat, List.append_assoc]
      · simp only [Decoding.listed, List.append_nil, hreads.not_last, Bool.false_eq_true, if_false,
          heq', List.append_assoc, and_true]
        exact ⟨hnext2.trans hends'.next, hends'.last, hends'.all⟩
    · have hany : (rs ++ r.listed).any Decoding.isLast = true := by
        rw [List.any_append, (any_listed hends.last).mpr hr, Bool.or_true]
      simp only [hany, if_true]
      exact ⟨c, cs.flatten, rs, d0, r, rfl, hreads, ⟨hends.next, hends.last, fun h => absurd h hr⟩,
        rfl⟩

/-- The answers before the last one, with all bytes of the stream there from the start. -/
theorem inPieces_reads (hD : D.Patient) (cs : List Bytes) {d : δ} (hd : D.next d = (.ok none, d)) :
    ∃ later rs d0 r, D.Reads (D.feed d cs.flatten) rs (D.feed d0 later) ∧
      D.Ends d0 later r (D.inPieces cs d).2 ∧ (D.inPieces cs d).1 = rs ++ r.listed := by
  obtain ⟨come, later, rs, d0, r, hflat, hreads, hends, heq⟩ := hD.inPieces_spec cs d hd
  have hall := hD.reads_feed hreads later
  rw [hD.feed_feed, ← hflat] at hall
  exact ⟨later, rs, d0, r, hall, hends, heq⟩

theorem whole_reads (hD : D.Patient) (bs : Bytes) (d : δ) :
    ∃ rs d0 r, D.Reads (D.feed d bs) rs d0 ∧ D.Ends d0 [] r (D.inPieces [bs] d).2 ∧
      (D.inPieces [bs] d).1 = rs ++ r.listed := by
  have hdrain : D.inPieces [bs] d = D.drain (D.feed d bs) := by
    simp only [inPieces, List.append_nil, ite_self]
  rw [hdrain]
  exact drainFor_spec hD.shrinks _ _ (Nat.lt_succ_self _)

/-- A decoder whose fatal errors do not depend on what follows reads a stream the same however it is
cut. The states are the same but for bytes that were not taken after an error. -/
theorem inPieces_agree (hD : D.Patient)
    (hfatal : ∀ {d d' : δ} {e : FrameError} (x : Bytes), D.next d = (.error e, d') →
      e.isFatal = true → D.next (D.feed d x) = (.error e, D.feed d' x))
    {d : δ} (hd : D.next d = (.ok none, d)) {cs cs' : List Bytes}
    (h : cs.flatten = cs'.flatten) :
    (D.inPieces cs d).1 = (D.inPieces cs' d).1 ∧
      ∃ x y, D.feed (D.inPieces cs d).2 x = D.feed (D.inPieces cs' d).2 y := by
  -- At the end of a reading the whole stream gives the same last answer.
  have whole : ∀ {d0 d1 : δ} {later : Bytes} {r : Decoding}, D.Ends d0 later r d1 →
      D.next (D.feed d0 later) = (r, D.feed d1 later) := by
    intro d0 d1 later r hends
    obtain rfl | ⟨e, rfl, he⟩ := Decoding.isLast_cases hends.last
    · rw [hends.all rfl, hD.feed_nil, hD.feed_nil]
      exact hends.next
    · exact hfatal later hends.next he
  obtain ⟨later, rs, d0, r, hreads, hends, heq⟩ := hD.inPieces_reads cs hd
  obtain ⟨later', rs', d0', r', hreads', hends', heq'⟩ := hD.inPieces_reads cs' hd
  have hw := whole hends
  have hw' := whole hends'
  rw [← h] at hreads'
  obtain ⟨rfl, hsame⟩ := hreads.unique hreads' (by rw [hw]; exact hends.last)
    (by rw [hw']; exact hends'.last)
  rw [hsame, hw'] at hw
  obtain ⟨rfl, hstate⟩ := Prod.mk.inj hw
  exact ⟨heq.trans heq'.symm, later, later', hstate.symm⟩

/-- However a stream is cut, reading it gives the answers that all of it is known to give. -/
theorem inPieces_eq (hD : D.Patient)
    (hfatal : ∀ {d d' : δ} {e : FrameError} (x : Bytes), D.next d = (.error e, d') →
      e.isFatal = true → D.next (D.feed d x) = (.error e, D.feed d' x))
    {d d0 d1 : δ} (hd : D.next d = (.ok none, d)) {cs : List Bytes} {rs : List Decoding}
    (hreads : D.Reads (D.feed d cs.flatten) rs d0) (hnext : D.next d0 = (.ok none, d1)) :
    D.inPieces cs d = (rs, d1) := by
  obtain ⟨later, rs', d0', r, hreads', hends, heq⟩ := hD.inPieces_reads cs hd
  have hlast : D.next (D.feed d0' later) = (r, D.feed (D.inPieces cs d).2 later) := by
    obtain rfl | ⟨e, rfl, he⟩ := Decoding.isLast_cases hends.last
    · rw [hends.all rfl, hD.feed_nil, hD.feed_nil]
      exact hends.next
    · exact hfatal later hends.next he
  obtain ⟨rfl, rfl⟩ := hreads.unique hreads' (by rw [hnext]; rfl) (by rw [hlast]; exact hends.last)
  rw [hnext] at hlast
  obtain ⟨rfl, hstate⟩ := Prod.mk.inj hlast
  rw [hends.all rfl, hD.feed_nil] at hstate
  exact Prod.ext (heq.trans (List.append_nil rs)) hstate.symm

end Patient
end Decoder
end PeerLink
