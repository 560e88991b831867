import Mathlib.Logic.Relation
import PeerLink.Message

/-! # Streams between two ends

* `Lane`: a stream as both ends have it, with all that is on its way between them.
* `Lane.Step`: what can become of a stream; `Lane.Phase`: the shapes it takes. Messages keep their
  order, so a request never overtakes the close that follows it.
* `Lanes`: the streams of all numbers. One step changes one of them.
* `Lane.Phase.agree`: a stream of which nothing is on its way is the same at both ends.
-/

namespace PeerLink
set_option autoImplicit false

/-! ## One stream -/

/-- The method and the path of a request. -/
abbrev Purpose := Method × Option String

/-- What a request on its way means for its stream. -/
inductive Signal
  | opens (x : Purpose)
  | closes

structure Lane where
  /-- What the requester waits for. -/
  asked : Option Purpose := none
  /-- What the responder serves. -/
  served : Option Purpose := none
  /-- Requests on their way, the oldest first. -/
  up : List Signal := []
  /-- Responses on their way: whether they close the stream. -/
  down : List Bool := []

namespace Lane

inductive Step : Lane → Lane → Prop
  /-- The requester closes its end. -/
  | leaves {x : Purpose} {served : Option Purpose} {up : List Signal} {down : List Bool} :
      Step ⟨some x, served, up, down⟩ ⟨none, served, up ++ [.closes], down⟩
  /-- A request is accepted. -/
  | opens {x : Purpose} {asked : Option Purpose} {up : List Signal} {down : List Bool} :
      Step ⟨asked, none, .opens x :: up, down⟩ ⟨asked, some x, up, down⟩
  /-- A request is answered at once, and nothing is opened. -/
  | refuses {x : Purpose} {asked served : Option Purpose} {up : List Signal} {down : List Bool} :
      Step ⟨asked, served, .opens x :: up, down⟩ ⟨asked, served, up, down ++ [true]⟩
  /-- A close arrives. -/
  | releases {asked served : Option Purpose} {up : List Signal} {down : List Bool} :
      Step ⟨asked, served, .closes :: up, down⟩ ⟨asked, none, up, down⟩
  | answers {x : Purpose} {asked : Option Purpose} {up : List Signal} {down : List Bool} :
      Step ⟨asked, some x, up, down⟩ ⟨asked, some x, up, down ++ [false]⟩
  | finishes {x : Purpose} {asked : Option Purpose} {up : List Signal} {down : List Bool} :
      Step ⟨asked, some x, up, down⟩ ⟨asked, none, up, down ++ [true]⟩
  | hears {x : Purpose} {served : Option Purpose} {up : List Signal} {down : List Bool} :
      Step ⟨some x, served, up, false :: down⟩ ⟨some x, served, up, down⟩
  /-- The last response arrives. -/
  | ends {x : Purpose} {served : Option Purpose} {up : List Signal} {down : List Bool} :
      Step ⟨some x, served, up, true :: down⟩ ⟨none, served, up, down⟩
  /-- A response that nobody waits for is answered with a close. -/
  | strays {served : Option Purpose} {up : List Signal} {down : List Bool} :
      Step ⟨none, served, up, false :: down⟩ ⟨none, served, up ++ [.closes], down⟩
  /-- A last response that nobody waits for is passed over. -/
  | passes {served : Option Purpose} {up : List Signal} {down : List Bool} :
      Step ⟨none, served, up, true :: down⟩ ⟨none, served, up, down⟩

inductive Phase : Lane → Prop
  | asking (x : Purpose) : Phase ⟨some x, none, [.opens x], []⟩
  | running (x : Purpose) {down : List Bool} (hdown : ∀ b ∈ down, b = false) :
      Phase ⟨some x, some x, [], down⟩
  | answered (x : Purpose) {down down' : List Bool} (hdown : ∀ b ∈ down, b = false)
      (hlast : down' = down ++ [true]) : Phase ⟨some x, none, [], down'⟩
  /-- Closed before the request has arrived. -/
  | withdrawn (x : Purpose) : Phase ⟨none, none, [.opens x, .closes], []⟩
  /-- Closed by the requester, and not yet by the responder. -/
  | leaving (x : Purpose) {up : List Signal} {down : List Bool} (hup : ∀ s ∈ up, s = .closes) :
      Phase ⟨none, some x, .closes :: up, down⟩
  | gone {up : List Signal} {down : List Bool} (hup : ∀ s ∈ up, s = .closes) :
      Phase ⟨none, none, up, down⟩

theorem all_append {α : Type} {a : α} {xs : List α} (h : ∀ x ∈ xs, x = a) :
    ∀ x ∈ xs ++ [a], x = a := by
  intro x hx
  rcases List.mem_append.mp hx with hx | hx
  · exact h x hx
  · exact List.mem_singleton.mp hx

theorem all_tail {α : Type} {a b : α} {xs : List α} (h : ∀ x ∈ b :: xs, x = a) :
    ∀ x ∈ xs, x = a := fun x hx => h x (List.mem_cons_of_mem b hx)

variable {s s' : Lane}

theorem Phase.start : Phase {} := .gone nofun

/-- The requester's end may be left in any phase. -/
theorem Phase.leaves {x : Purpose} {served : Option Purpose} {up : List Signal} {down : List Bool}
    (h : Phase ⟨some x, served, up, down⟩) : Phase ⟨none, served, up ++ [.closes], down⟩ := by
  cases h with
  | asking => exact .withdrawn x
  | running _ _ => exact .leaving x nofun
  | answered _ _ _ => exact .gone (all_append (List.forall_mem_nil _))

theorem Phase.finishes {x : Purpose} {asked : Option Purpose} {up : List Signal}
    {down : List Bool} (h : Phase ⟨asked, some x, up, down⟩) :
    Phase ⟨asked, none, up, down ++ [true]⟩ := by
  cases h with
  | running _ hdown => exact .answered x hdown rfl
  | leaving _ hup =>
    refine .gone fun s hs => ?_
    rcases List.mem_cons.mp hs with rfl | hs
    · rfl
    · exact hup s hs

/-- A response that leaves the stream open is not the last one on its way. -/
theorem Phase.hears {x : Purpose} {served : Option Purpose} {up : List Signal} {down : List Bool}
    (h : Phase ⟨some x, served, up, false :: down⟩) : Phase ⟨some x, served, up, down⟩ := by
  cases h with
  | running _ hdown => exact .running x (all_tail hdown)
  | @answered _ opened _ hdown hlast =>
    cases opened with
    | nil => cases hlast
    | cons b opened => exact .answered x (all_tail hdown) (List.tail_eq_of_cons_eq hlast)

/-- A closing response is the last one on its way, and the responder has closed its end. -/
theorem Phase.ends {x : Purpose} {served : Option Purpose} {up : List Signal} {down : List Bool}
    (h : Phase ⟨some x, served, up, true :: down⟩) : Phase ⟨none, served, up, down⟩ := by
  cases h with
  | running _ hdown => cases hdown true List.mem_cons_self
  | @answered _ opened _ hdown hlast =>
    cases opened with
    | nil => exact .gone nofun
    | cons b opened =>
      have hb : b = true := (List.head_eq_of_cons_eq hlast).symm
      cases hb.symm.trans (hdown b List.mem_cons_self)

theorem Step.phase (h : Step s s') (hp : Phase s) : Phase s' := by
  cases h with
  | leaves => exact hp.leaves
  | opens =>
    cases hp with
    | asking => exact .running _ nofun
    | withdrawn => exact .leaving _ nofun
    | gone hup => cases hup _ List.mem_cons_self
  | refuses =>
    cases hp with
    | asking => exact .answered _ (List.forall_mem_nil _) rfl
    | withdrawn => exact .gone (all_append (List.forall_mem_nil _))
    | gone hup => cases hup _ List.mem_cons_self
  | releases =>
    cases hp with
    | leaving _ hup => exact .gone hup
    | gone hup => exact .gone (all_tail hup)
  | answers =>
    cases hp with
    | running _ hdown => exact .running _ (all_append hdown)
    | leaving _ hup => exact .leaving _ hup
  | finishes => exact hp.finishes
  | hears => exact hp.hears
  | ends => exact hp.ends
  | strays =>
    cases hp with
    | leaving _ hup => exact .leaving _ (all_append hup)
    | gone hup => exact .gone (all_append hup)
  | passes =>
    cases hp with
    | leaving _ hup => exact .leaving _ hup
    | gone hup => exact .gone hup

theorem Phase.agree (h : Phase s) (hup : s.up = []) (hdown : s.down = []) : s.asked = s.served := by
  cases h with
  | asking x => cases hup
  | running x _ => rfl
  | answered x _ hlast =>
    rw [hlast] at hdown
    exact absurd hdown (List.append_ne_nil_of_right_ne_nil _ nofun)
  | withdrawn x => cases hup
  | leaving x _ => cases hup
  | gone _ => rfl

/-- A request on its way finds its stream closed. -/
theorem Phase.free_of_opens {x : Purpose} {asked served : Option Purpose} {up : List Signal}
    {down : List Bool} (h : Phase ⟨asked, served, .opens x :: up, down⟩) : served = none := by
  cases h with
  | asking | withdrawn => rfl
  | gone hup => cases hup _ List.mem_cons_self

/-- Nothing becomes of a stream that was never asked for. -/
theorem Step.ne_start (h : Step s s') : s ≠ {} := by
  rintro rfl
  cases h

end Lane

/-! ## All streams -/

structure Lanes where
  /-- The number of the next request; greater ones have not been used. -/
  next : Nat
  lane : Nat → Lane

namespace Lanes

inductive Step (S S' : Lanes) : Prop
  /-- Nothing changes, but numbers may be passed over. -/
  | skips (hlane : ∀ rid, S'.lane rid = S.lane rid) (hnext : S.next ≤ S'.next)
  | asks (rid : Nat) (x : Purpose) (hfresh : S.next ≤ rid) (hnext : rid < S'.next)
      (hnew : S.lane rid = {} → S'.lane rid = ⟨some x, none, [.opens x], []⟩)
      (hother : ∀ rid', rid' ≠ rid → S'.lane rid' = S.lane rid')
  | moves (rid : Nat) (hstep : Lane.Step (S.lane rid) (S'.lane rid)) (hnext : S'.next = S.next)
      (hother : ∀ rid', rid' ≠ rid → S'.lane rid' = S.lane rid')

abbrev Steps : Lanes → Lanes → Prop := Relation.ReflTransGen Step

structure Sound (S : Lanes) : Prop where
  next : 1 ≤ S.next
  unused : ∀ rid, rid = 0 ∨ S.next ≤ rid → S.lane rid = {}
  phase : ∀ rid, (S.lane rid).Phase

variable {S S' : Lanes}

theorem Step.sound (h : Step S S') (hs : S.Sound) : S'.Sound := by
  cases h with
  | skips hlane hnext =>
    refine ⟨Nat.le_trans hs.next hnext, fun rid hrid => ?_, fun rid => hlane rid ▸ hs.phase rid⟩
    rw [hlane]
    exact hs.unused rid (hrid.imp id (Nat.le_trans hnext))
  | asks rid x hfresh hnext hnew hother =>
    have hpos := hs.next
    refine ⟨by omega, fun rid' hrid => ?_, fun rid' => ?_⟩
    · rw [hother rid' (by omega)]
      exact hs.unused rid' (by omega)
    · by_cases he : rid' = rid
      · rw [he, hnew (hs.unused rid (.inr hfresh))]
        exact .asking x
      · rw [hother rid' he]
        exact hs.phase rid'
  | moves rid hstep hnext hother =>
    refine ⟨hnext ▸ hs.next, fun rid' hrid => ?_, fun rid' => ?_⟩
    · rw [hnext] at hrid
      have hunused := hs.unused rid' hrid
      have he : rid' ≠ rid := fun he => hstep.ne_start (he ▸ hunused)
      rw [hother rid' he, hunused]
    · by_cases he : rid' = rid
      · rw [he]
        exact hstep.phase (hs.phase rid)
      · rw [hother rid' he]
        exact hs.phase rid'

theorem Steps.sound (h : Steps S S') (hs : S.Sound) : S'.Sound := by
  induction h with
  | refl => exact hs
  | tail _ hstep ih => exact hstep.sound ih

end Lanes
end PeerLink
