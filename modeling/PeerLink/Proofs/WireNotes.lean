import PeerLink.Proofs.Assembly
import PeerLink.Proofs.Histories
import PeerLink.Proofs.LinkCounters

/-! # Notes of a wire

What one end writes and what it makes of the frames that it reads, noted in order. The peer may have
sent anything.

* `Note`: one write, or one frame that was read.
* `Lawful`: what each entry owes to those before it.
* `WellFormed`: what that comes to for the frames that were written.
* `Parses`: the frames that stand in bytes one after the other.
-/

namespace PeerLink
set_option autoImplicit false

inductive Note (α : Type)
  | wrote (a : α)
  /-- A frame was read, and was accounted for or refused. -/
  | read (f : Frame) (r : Except FrameError Unit)

namespace Note
variable {α β : Type}

def map (g : α → β) : Note α → Note β
  | .wrote a => .wrote (g a)
  | .read f r => .read f r

def written? : Note α → Option α
  | .wrote a => some a
  | .read _ _ => none

/-- The acknowledgement of the peer in a frame, unless it is what the frame was refused for. -/
def ack? : Note α → Option Nat
  | .wrote _ => none
  | .read _ (.error (.ackViolation _)) => none
  | .read f _ => some f.ack

/-- A numbered frame that was accounted for. -/
def taken? : Note α → Option Frame
  | .read f (.ok ()) => if f.type.consumesCredit then some f else none
  | _ => none

/-- The highest acknowledgement of the peer. -/
def acked (t : List (Note α)) : Nat := (t.filterMap ack?).foldl max 0

def taken (t : List (Note α)) : List Frame := t.filterMap taken?

def written (t : List (Note α)) : List α := t.filterMap written?

/-- The frames written that needed credit. -/
def numbered (t : List (Note Frame)) : List Frame := (written t).filter (·.type.consumesCredit)

@[simp] theorem written_append (t t' : List (Note α)) :
    written (t ++ t') = written t ++ written t' := List.filterMap_append

@[simp] theorem taken_append (t t' : List (Note α)) : taken (t ++ t') = taken t ++ taken t' :=
  List.filterMap_append

@[simp] theorem numbered_append (t t' : List (Note Frame)) :
    numbered (t ++ t') = numbered t ++ numbered t' := by
  simp only [numbered, written_append, List.filter_append]

@[simp] theorem written_wrote (a : α) : written [.wrote a] = [a] := rfl

@[simp] theorem written_read (f : Frame) (r : Except FrameError Unit) :
    written [(.read f r : Note α)] = [] := rfl

@[simp] theorem taken_wrote (a : α) : taken [.wrote a] = [] := rfl

theorem taken_read (f : Frame) (r : Except FrameError Unit) :
    taken [(.read f r : Note α)] = [] ∨
      taken? (.read f r : Note α) ≠ none ∧ taken [(.read f r : Note α)] = [f] := by
  by_cases h : r = .ok () ∧ f.type.consumesCredit = true
  · obtain ⟨rfl, hf⟩ := h
    exact .inr (by simp [taken, taken?, hf])
  · left
    match r, h with
    | .error e, _ => rfl
    | .ok (), h => simpa [taken, taken?] using h

@[simp] theorem numbered_read (f : Frame) (r : Except FrameError Unit) :
    numbered [.read f r] = [] := rfl

@[simp] theorem numbered_ackOnly (n : Nat) : numbered [.wrote (.ackOnly n)] = [] := rfl

theorem numbered_stamped {f : Frame} (h : f.type.consumesCredit = true) (ack : Nat)
    (seq : Option Nat) : numbered [.wrote (f.stamped ack seq)] = [f.stamped ack seq] := by
  simp [numbered, Frame.stamped, h]

theorem acked_snoc (t : List (Note α)) (n : Note α) :
    acked (t ++ [n]) = n.ack?.elim (acked t) (max (acked t)) := by
  rw [acked, List.filterMap_append, List.foldl_append]
  cases hn : n.ack? <;> simp [hn, acked]

@[simp] theorem acked_wrote (t : List (Note α)) (a : α) : acked (t ++ [.wrote a]) = acked t :=
  acked_snoc t _

theorem acked_refused (t : List (Note α)) (f : Frame) (fault : AckFault) :
    acked (t ++ [.read f (.error (.ackViolation fault))]) = acked t :=
  acked_snoc t _

theorem acked_read (t : List (Note α)) {f : Frame} {r : Except FrameError Unit}
    (h : ∀ fault, r ≠ .error (.ackViolation fault)) :
    acked (t ++ [.read f r]) = max (acked t) f.ack := by
  have hack : ack? (.read f r : Note α) = some f.ack := by
    unfold ack?
    split
    · contradiction
    · rename_i f' fault heq
      cases heq
      exact absurd rfl (h fault)
    · rename_i f' r' _ heq
      cases heq
      rfl
  rw [acked_snoc, hack]
  rfl

theorem written_map (g : α → β) (t : List (Note α)) :
    written (t.map (map g)) = (written t).map g := by
  rw [written, written, List.filterMap_map, List.map_filterMap]
  congr 1
  funext n
  cases n <;> rfl

end Note

open Note

/-! ## Laws -/

/-- What each entry owes to those before it; `window` is how far the end may run ahead. -/
inductive Lawful (window : Nat) : List (Note Frame) → Prop
  | nil : Lawful window []
  | read {t : List (Note Frame)} {f : Frame} {r : Except FrameError Unit} (past : Lawful window t)
      (turn : taken? (.read f r : Note Frame) ≠ none →
        f.headers.seq = some ((taken t).length + 1)) :
      Lawful window (t ++ [.read f r])
  | ack {t : List (Note Frame)} (past : Lawful window t) :
      Lawful window (t ++ [.wrote (.ackOnly (taken t).length)])
  | frame {t : List (Note Frame)} {f : Frame} (past : Lawful window t)
      (type : f.type.consumesCredit = true) (credit : (numbered t).length + 1 ≤ acked t + window) :
      Lawful window
        (t ++ [.wrote (f.stamped (taken t).length (some ((numbered t).length + 1)))])

/-- Frames numbered from one on, without a gap. -/
def Numbered (fs : List Frame) : Prop :=
  fs.map (·.headers.seq) = (List.range' 1 fs.length).map some

theorem Numbered.snoc {fs : List Frame} {f : Frame} (h : Numbered fs)
    (hf : f.headers.seq = some (fs.length + 1)) : Numbered (fs ++ [f]) := by
  rw [Numbered, List.map_append, h, List.length_append, List.length_singleton, List.range'_1_concat,
    List.map_append, List.map_singleton, List.map_singleton, hf, Nat.add_comm 1]

theorem Numbered.mem {fs : List Frame} {f : Frame} (h : Numbered fs) (hf : f ∈ fs) :
    ∃ n ≤ fs.length, f.headers.seq = some n := by
  have hseq : f.headers.seq ∈ fs.map (·.headers.seq) := List.mem_map_of_mem hf
  rw [h] at hseq
  obtain ⟨n, hn, heq⟩ := List.mem_map.mp hseq
  have hrange := List.mem_range'_1.mp hn
  exact ⟨n, by omega, heq.symm⟩

/-- A number is written when the peer's acknowledgements so far allow it. -/
def Note.Credited (window : Nat) (past : List (Note Frame)) : Note Frame → Prop
  | .wrote f => ∀ n, f.headers.seq = some n → n ≤ acked past + window
  | .read _ _ => True

/-- An acknowledgement is no higher than what has come. -/
def Note.Earned (past : List (Note Frame)) : Note Frame → Prop
  | .wrote f => f.ack ≤ (taken past).length
  | .read _ _ => True

/-- What the notes of an end say of the frames that it wrote. -/
structure WellFormed (window : Nat) (t : List (Note Frame)) : Prop where
  numbers : Numbered (numbered t)
  credit : Each (Credited window) t
  acks : ((written t).map Frame.ack).Pairwise (· ≤ ·)
  earned : Each Earned t
  /-- What came in its order was numbered in its turn. -/
  order : Numbered (taken t)
  bare : ∀ f ∈ written t, f.type = .ack → f.headers.seq = none

namespace Lawful
variable {window : Nat} {t : List (Note Frame)}

theorem ack_le (h : Lawful window t) : ∀ f ∈ written t, f.ack ≤ (taken t).length := by
  induction h with
  | nil => exact fun f hf => absurd hf List.not_mem_nil
  | read _ _ ih =>
    intro f hf
    have hf' := ih f (by simpa using hf)
    rw [taken_append, List.length_append]
    omega
  | ack _ ih | frame _ _ _ ih =>
    intro f hf
    rw [written_append, List.mem_append, written_wrote, List.mem_singleton] at hf
    rw [taken_append, taken_wrote, List.append_nil]
    obtain hf | rfl := hf
    · exact ih f hf
    · exact Nat.le_refl _

theorem ackOnly_of (h : Lawful window t) :
    ∀ f ∈ written t, f.type.consumesCredit = false → f = .ackOnly f.ack := by
  induction h with
  | nil => exact fun f hf => absurd hf List.not_mem_nil
  | read _ _ ih => simpa using ih
  | ack _ ih =>
    intro f hf htype
    rw [written_append, List.mem_append, written_wrote, List.mem_singleton] at hf
    obtain hf | rfl := hf
    · exact ih f hf htype
    · rfl
  | @frame t g _ type _ ih =>
    intro f hf htype
    rw [written_append, List.mem_append, written_wrote, List.mem_singleton] at hf
    obtain hf | rfl := hf
    · exact ih f hf htype
    · exact absurd (type.symm.trans htype) nofun

theorem wellFormed_wrote (past : Lawful window t) (h : WellFormed window t) {f : Frame}
    (ack : f.ack = (taken t).length) (numbers : Numbered (numbered (t ++ [.wrote f])))
    (credit : Credited window t (.wrote f)) (bare : f.type = .ack → f.headers.seq = none) :
    WellFormed window (t ++ [.wrote f]) where
  numbers := numbers
  credit := h.credit.snoc credit
  acks := by
    rw [written_append, List.map_append, List.pairwise_append]
    exact ⟨h.acks, List.pairwise_singleton _ _, by simpa [ack] using past.ack_le⟩
  earned := h.earned.snoc (Nat.le_of_eq ack)
  order := by simpa using h.order
  bare := by
    intro g hg htype
    rw [written_append, List.mem_append, written_wrote, List.mem_singleton] at hg
    obtain hg | rfl := hg
    · exact h.bare g hg htype
    · exact bare htype

theorem wellFormed_read (h : WellFormed window t) {f : Frame} {r : Except FrameError Unit}
    (turn : taken? (.read f r : Note Frame) ≠ none →
      f.headers.seq = some ((taken t).length + 1)) : WellFormed window (t ++ [.read f r]) where
  numbers := by simpa using h.numbers
  credit := h.credit.snoc trivial
  acks := by simpa using h.acks
  earned := h.earned.snoc trivial
  order := by
    rw [taken_append]
    obtain hnone | ⟨hsome, hf⟩ := taken_read (α := Frame) f r
    · rw [hnone, List.append_nil]
      exact h.order
    · rw [hf]
      exact h.order.snoc (turn hsome)
  bare := by simpa using h.bare

theorem wellFormed (h : Lawful window t) : WellFormed window t := by
  induction h with
  | nil => exact ⟨rfl, .nil, .nil, .nil, rfl, fun f hf => absurd hf List.not_mem_nil⟩
  | read _ turn ih => exact wellFormed_read ih turn
  | @ack t past ih =>
    have hack : (Frame.ackOnly (taken t).length).ack = (taken t).length := rfl
    exact wellFormed_wrote past ih hack (by simpa using ih.numbers) nofun fun _ => rfl
  | @frame t f past type credit ih =>
    have hack : (f.stamped (taken t).length (some ((numbered t).length + 1))).ack =
      (taken t).length := rfl
    refine wellFormed_wrote past ih hack ?_ (fun n hn => ?_) fun htype => ?_
    · rw [numbered_append, numbered_stamped type]
      exact ih.numbers.snoc rfl
    · cases hn
      exact credit
    · have hack : f.type = .ack := htype
      rw [hack] at type
      cases type

end Lawful

/-! ## Bytes -/

/-- The frames that stand in bytes one after the other, with nothing left over. -/
inductive Parses (maxBody : Nat) : Bytes → List Frame → Prop
  | nil : Parses maxBody [] []
  | cons {bs rest : Bytes} {f : Frame} {fs : List Frame}
      (next : Frame.decode maxBody bs = .ok (some (f, rest))) (more : Parses maxBody rest fs) :
      Parses maxBody bs (f :: fs)

theorem Parses.encode {maxBody : Nat} : ∀ {fs : List Frame},
    (∀ f ∈ fs, f.InWords ∧ f.Fits maxBody) → Parses maxBody (fs.flatMap Frame.encode) fs
  | [], _ => .nil
  | f :: fs, h => by
    obtain ⟨hwords, hfits⟩ := h f List.mem_cons_self
    rw [List.flatMap_cons]
    exact .cons (Frame.decode_encode_append hwords hfits _)
      (Parses.encode fun g hg => h g (List.mem_cons_of_mem f hg))

end PeerLink
