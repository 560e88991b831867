import PeerLink.Proofs.Payloads
import PeerLink.Proofs.Histories

/-! # What reassembled frames are made of

Any frames may be pushed, and keys abandoned and discarded, in any order.

* `Reassembler.Trail`: a reassembler with the history of what was done with it.
* `Reassembler.Pushed`: all that a frame can do under its key.
* `Reassembler.Trail.Gathers`: what an open assembly holds, read off the history.
* `Reassembler.Trail.Delivers`: the members of a frame that is returned.
* `Reassembler.Trail.ofCalls_sound`: so it is for all calls.
-/

namespace PeerLink
set_option autoImplicit false

namespace Frame

/-- The first member of a split payload. -/
def isPrimary (f : Frame) : Bool := !f.headers.continuation && f.headers.total.isSome

/-- The frame as if it had never been split. -/
def unmarked (f : Frame) : Frame :=
  { f with headers := { f.headers with total := none, continuation := false } }

theorem unmarked_of_whole {f : Frame} (hsingle : f.headers.continuation = false)
    (hnone : f.headers.total = none) : f.unmarked = f := by
  obtain ⟨type, rid, ack, ⟨path, qos, status, permit, seq, total, continuation⟩, body⟩ := f
  simp only at hsingle hnone
  rw [hsingle, hnone]
  rfl

theorem isPrimary_of_total {f : Frame} {total : Nat} (hsingle : f.headers.continuation = false)
    (htotal : f.headers.total = some total) : f.isPrimary = true := by
  rw [isPrimary, hsingle, htotal]
  rfl

theorem not_isPrimary_of_continuation {f : Frame} (h : f.headers.continuation = true) :
    f.isPrimary ≠ true := by
  rw [isPrimary, h]
  nofun

theorem not_isPrimary_of_none {f : Frame} (h : f.headers.total = none) : f.isPrimary ≠ true := by
  rw [isPrimary, h, Option.isSome_none, Bool.and_false]
  nofun

end Frame

namespace Reassembler

/-! ## One frame -/

/-- All that a frame can do under its key: its outcome, and the assembly that is there then. -/
inductive Pushed (f : Frame) : Option Assembly → Outcome → Option Assembly → Prop
  | refused (e : FrameError) {a? a?' : Option Assembly} (left : a?' = a? ∨ a?' = none) :
      Pushed f a? (.error e) a?'
  | single (a? : Option Assembly) (own : f.headers.continuation = false)
      (plain : f.headers.total = none) : Pushed f a? (.ok (some f)) a?
  | alone (a? : Option Assembly) (own : f.headers.continuation = false)
      (whole : f.headers.total = some f.body.length) : Pushed f a? (.ok (some f.unmarked)) none
  | begins (a? : Option Assembly) {total : Nat} (own : f.headers.continuation = false)
      (declared : f.headers.total = some total) (short : f.body.length < total) :
      Pushed f a? (.ok none) (some (.ofPrimary f total))
  | extends {a : Assembly} (later : f.headers.continuation = true)
      (declared : f.headers.total = some a.total) (short : a.received + f.body.length < a.total) :
      Pushed f (some a) (.ok none) (some (a.extend f.body))
  | completes {a : Assembly} (later : f.headers.continuation = true)
      (declared : f.headers.total = some a.total) (full : a.received + f.body.length = a.total)
      (kept : a.abandoned = false) : Pushed f (some a) (.ok (some (a.extend f.body).finish)) none
  | swallowed {a : Assembly} (later : f.headers.continuation = true)
      (declared : f.headers.total = some a.total) (full : a.received + f.body.length = a.total)
      (given : a.abandoned = true) : Pushed f (some a) (.ok none) none

theorem pushed_continueWith {f : Frame} (a : Assembly) (hf : f.headers.continuation = true) :
    Pushed f (some a) (a.continueWith f).1 (a.continueWith f).2 := by
  rw [Assembly.continueWith]
  by_cases htotal : f.headers.total = some a.total
  · rw [if_neg (not_not_intro htotal)]
    by_cases hover : a.total < a.received + f.body.length
    · rw [if_pos hover]
      exact .refused _ (.inl rfl)
    · rw [if_neg hover]
      have hcomplete : (a.extend f.body).isComplete = true ↔
          a.received + f.body.length = a.total := beq_iff_eq
      by_cases hfull : a.received + f.body.length = a.total
      · rw [if_pos (hcomplete.mpr hfull)]
        cases habandoned : a.abandoned with
        | false => exact .completes hf htotal hfull habandoned
        | true => exact .swallowed hf htotal hfull habandoned
      · rw [if_neg (fun h => hfull (hcomplete.mp h))]
        exact .extends hf htotal (by omega)
  · rw [if_pos htotal]
    exact .refused _ (.inl rfl)

theorem pushed_beginWith {f : Frame} (a? : Option Assembly) {total : Nat}
    (hf : f.headers.continuation = false) (htotal : f.headers.total = some total) :
    Pushed f a? (Assembly.beginWith f total).1 (Assembly.beginWith f total).2 := by
  rw [Assembly.beginWith]
  by_cases hlong : total < f.body.length
  · rw [if_pos hlong]
    exact .refused _ (.inr rfl)
  · rw [if_neg hlong]
    have hcomplete : (Assembly.ofPrimary f total).isComplete = true ↔ f.body.length = total :=
      beq_iff_eq
    by_cases hfull : f.body.length = total
    · rw [if_pos (hcomplete.mpr hfull)]
      exact .alone a? hf (by rw [htotal, hfull])
    · rw [if_neg (fun h => hfull (hcomplete.mp h))]
      exact .begins a? hf htotal (by omega)

theorem pushed_pushUnder (f : Frame) (a? : Option Assembly) :
    Pushed f a? (pushUnder a? f).1 (pushUnder a? f).2 := by
  rw [pushUnder.eq_def]
  cases hf : f.headers.continuation with
  | true =>
    cases a? with
    | none => exact .refused _ (.inl rfl)
    | some a => exact pushed_continueWith a hf
  | false =>
    cases htotal : f.headers.total with
    | none => exact .single a? hf htotal
    | some total =>
      simp only [Bool.false_eq_true, if_false]
      -- an abandoned assembly is filtered out, so that the frame begins as under a free key
      cases hopen : a?.filter (!·.abandoned) with
      | none => exact pushed_beginWith a? hf htotal
      | some a =>
        have ha : a? = some a := (Option.filter_eq_some_iff.mp hopen).1
        exact .refused _ (.inl ha.symm)

/-! ## Histories -/

inductive Call
  | push (f : Frame)
  | abandon (key : AssemblyKey)
  | discard (key : AssemblyKey)

/-- A call with its answer. -/
inductive Deed
  | pushed (f : Frame) (o : Outcome)
  | abandoned (key : AssemblyKey)
  | discarded (key : AssemblyKey)

namespace Deed

/-- A continuation of the key that was taken. -/
def member? (key : AssemblyKey) : Deed → Option Frame
  | .pushed f (.ok _) => if f.headers.continuation && f.assemblyKey = key then some f else none
  | _ => none

/-- Neither begins another payload of the key, nor ends the one that is on its way. A first member
that is refused begins none. -/
def Spares (key : AssemblyKey) : Deed → Prop
  | .pushed f (.ok whole) =>
    f.assemblyKey = key → f.isPrimary ≠ true ∧ (f.headers.continuation = true → whole = none)
  | .pushed _ (.error _) => True
  | .abandoned _ => True
  | .discarded key' => key' ≠ key

theorem member?_other {key : AssemblyKey} {f : Frame} (o : Outcome) (h : f.assemblyKey ≠ key) :
    (pushed f o).member? key = none := by
  cases o with
  | error e => rfl
  | ok whole => simp [member?, h]

theorem spares_other {key : AssemblyKey} {f : Frame} (o : Outcome) (h : f.assemblyKey ≠ key) :
    (pushed f o).Spares key := by
  cases o with
  | error e => trivial
  | ok whole => exact fun hkey => absurd hkey h

end Deed

/-- The continuations that were taken under a key. -/
def added (key : AssemblyKey) (mid : List Deed) : List Frame := mid.filterMap (Deed.member? key)

theorem added_snoc (key : AssemblyKey) (mid : List Deed) (d : Deed) :
    added key (mid ++ [d]) = added key mid ++ (d.member? key).toList := by
  rw [added, List.filterMap_append]
  cases h : d.member? key with
  | none => simp [h, added]
  | some f => simp [h, added]

/-- The bodies of frames, one after the other. -/
def bodies (fs : List Frame) : Bytes := fs.flatMap (·.body)

/-- A reassembler, and what has been done with it since it was new. -/
structure Trail where
  reassembler : Reassembler := {}
  history : List Deed := []

namespace Trail

def after (t : Trail) : Call → Trail
  | .push f => ⟨(t.reassembler.push f).2, t.history ++ [.pushed f (t.reassembler.push f).1]⟩
  | .abandon key => ⟨t.reassembler.abandon key, t.history ++ [.abandoned key]⟩
  | .discard key => ⟨t.reassembler.discard key, t.history ++ [.discarded key]⟩

def ofCalls (calls : List Call) : Trail := calls.foldl after {}

/-! ## Open assemblies -/

/-- An assembly was begun by `first`, and `mid` is what has been done since. -/
structure Gathers (first : Frame) (mid : List Deed) (a : Assembly) : Prop where
  primary : first.isPrimary = true
  spared : ∀ d ∈ mid, d.Spares first.assemblyKey
  declared : ∀ f ∈ first :: added first.assemblyKey mid, f.headers.total = some a.total
  received : a.received = (bodies (first :: added first.assemblyKey mid)).length
  short : a.received < a.total
  marked : a.abandoned = true ↔ .abandoned first.assemblyKey ∈ mid
  kept : a.primary =
    { first with
      body := if a.abandoned then [] else bodies (first :: added first.assemblyKey mid) }

/-- The latest payload that was begun under the key is the one in the assembly. -/
def Holds (history : List Deed) (key : AssemblyKey) (a : Assembly) : Prop :=
  ∃ early first mid, history = early ++ .pushed first (.ok none) :: mid ∧
    first.assemblyKey = key ∧ Gathers first mid a

variable {first f : Frame} {mid : List Deed} {a : Assembly} {d : Deed} {key : AssemblyKey}
  {history : List Deed}

theorem Gathers.begin {total : Nat} (hf : f.headers.continuation = false)
    (htotal : f.headers.total = some total) (hshort : f.body.length < total) :
    Gathers f [] (.ofPrimary f total) where
  primary := Frame.isPrimary_of_total hf htotal
  spared := fun d hd => absurd hd List.not_mem_nil
  declared := List.forall_mem_singleton.mpr htotal
  received := by simp [added, bodies, Assembly.ofPrimary]
  short := hshort
  marked := by simp [Assembly.ofPrimary]
  kept := by simp [added, bodies, Assembly.ofPrimary]

/-- What neither adds to a payload nor gives it up leaves its assembly. -/
theorem Gathers.leave (h : Gathers first mid a) (hspares : d.Spares first.assemblyKey)
    (hnone : d.member? first.assemblyKey = none) (hgiven : d ≠ .abandoned first.assemblyKey) :
    Gathers first (mid ++ [d]) a := by
  have hadded : added first.assemblyKey (mid ++ [d]) = added first.assemblyKey mid := by
    rw [added_snoc, hnone, Option.toList_none, List.append_nil]
  refine ⟨h.primary, ?_, ?_, ?_, h.short, ?_, ?_⟩
  · exact List.forall_mem_append.mpr ⟨h.spared, List.forall_mem_singleton.mpr hspares⟩
  · rw [hadded]
    exact h.declared
  · rw [hadded]
    exact h.received
  · rw [h.marked, List.mem_append, List.mem_singleton, or_iff_left hgiven.symm]
  · rw [hadded]
    exact h.kept

theorem Gathers.abandon (h : Gathers first mid a) :
    Gathers first (mid ++ [.abandoned first.assemblyKey]) a.abandon := by
  have hadded : added first.assemblyKey (mid ++ [.abandoned first.assemblyKey]) =
      added first.assemblyKey mid := by
    rw [added_snoc]
    exact List.append_nil _
  refine ⟨h.primary, ?_, ?_, ?_, h.short, ?_, ?_⟩
  · exact List.forall_mem_append.mpr ⟨h.spared, List.forall_mem_singleton.mpr trivial⟩
  · rw [hadded]
    exact h.declared
  · rw [hadded]
    exact h.received
  · exact iff_of_true rfl (by simp)
  · show { a.primary with body := [] } = _
    rw [h.kept]
    rfl

theorem added_take (mid : List Deed) (whole : Option Frame) (hf : f.headers.continuation = true)
    (hkey : f.assemblyKey = key) :
    added key (mid ++ [.pushed f (.ok whole)]) = added key mid ++ [f] := by
  have hmember : (Deed.pushed f (.ok whole)).member? key = some f := by
    simp [Deed.member?, hf, hkey]
  rw [added_snoc, hmember, Option.toList_some]

theorem bodies_snoc (fs : List Frame) (f : Frame) : bodies (fs ++ [f]) = bodies fs ++ f.body := by
  simp [bodies]

theorem Gathers.declared_snoc (h : Gathers first mid a) (htotal : f.headers.total = some a.total) :
    ∀ g ∈ first :: (added first.assemblyKey mid ++ [f]), g.headers.total = some a.total := by
  rw [← List.cons_append]
  exact List.forall_mem_append.mpr ⟨h.declared, List.forall_mem_singleton.mpr htotal⟩

theorem Gathers.received_snoc (h : Gathers first mid a) (f : Frame) :
    a.received + f.body.length =
      (bodies (first :: (added first.assemblyKey mid ++ [f]))).length := by
  rw [← List.cons_append, bodies_snoc, List.length_append, h.received]

/-- The first member with all bodies so far is what the assembly has after one more. -/
theorem Gathers.kept_snoc (h : Gathers first mid a) (f : Frame) :
    (a.extend f.body).primary =
      { first with
        body := if a.abandoned then []
          else bodies (first :: (added first.assemblyKey mid ++ [f])) } := by
  rw [← List.cons_append, bodies_snoc, Assembly.extend]
  cases habandoned : a.abandoned with
  | true => simp [h.kept, habandoned]
  | false => simp [h.kept, habandoned]

theorem Gathers.extend (h : Gathers first mid a) (hf : f.headers.continuation = true)
    (hkey : f.assemblyKey = first.assemblyKey) (htotal : f.headers.total = some a.total)
    (hshort : a.received + f.body.length < a.total) :
    Gathers first (mid ++ [.pushed f (.ok none)]) (a.extend f.body) := by
  have hadded := added_take mid none hf hkey
  refine ⟨h.primary, ?_, ?_, ?_, hshort, ?_, ?_⟩
  · have hspares : (Deed.pushed f (.ok none)).Spares first.assemblyKey :=
      fun _ => ⟨Frame.not_isPrimary_of_continuation hf, fun _ => rfl⟩
    exact List.forall_mem_append.mpr ⟨h.spared, List.forall_mem_singleton.mpr hspares⟩
  · rw [hadded]
    exact h.declared_snoc htotal
  · rw [hadded]
    exact h.received_snoc f
  · simpa [Assembly.extend] using h.marked
  · rw [hadded]
    exact h.kept_snoc f

theorem Holds.snoc {a' : Assembly} (h : Holds history key a) (d : Deed)
    (hgathers : ∀ first mid, first.assemblyKey = key → Gathers first mid a →
      Gathers first (mid ++ [d]) a') : Holds (history ++ [d]) key a' := by
  obtain ⟨early, first, mid, rfl, hkey, h⟩ := h
  exact ⟨early, first, mid ++ [d], by simp, hkey, hgathers first mid hkey h⟩

theorem Holds.leave (h : Holds history key a) (hspares : d.Spares key)
    (hnone : d.member? key = none) (hgiven : d ≠ .abandoned key) :
    Holds (history ++ [d]) key a := by
  refine h.snoc d ?_
  rintro first mid rfl h
  exact h.leave hspares hnone hgiven

/-- A frame leads from an assembly that the history accounts for to one that it accounts for. -/
theorem Holds.push {a?' : Option Assembly} {o : Outcome} {a? : Option Assembly}
    (h : ∀ a, a? = some a → Holds history f.assemblyKey a) (hpush : Pushed f a? o a?') :
    ∀ a, a?' = some a → Holds (history ++ [.pushed f o]) f.assemblyKey a := by
  intro a' ha'
  cases hpush with
  | refused e left =>
    obtain rfl | rfl := left
    · exact (h a' ha').leave trivial rfl nofun
    · cases ha'
  | single _ own plain =>
    have hspares : (Deed.pushed f (.ok (some f))).Spares f.assemblyKey :=
      fun _ => ⟨Frame.not_isPrimary_of_none plain, fun hf => by rw [own] at hf; cases hf⟩
    have hnone : (Deed.pushed f (.ok (some f))).member? f.assemblyKey = none := by
      simp [Deed.member?, own]
    exact (h a' ha').leave hspares hnone nofun
  | alone => cases ha'
  | begins _ own declared short =>
    obtain rfl := Option.some.inj ha'
    exact ⟨history, f, [], rfl, rfl, .begin own declared short⟩
  | «extends» later declared short =>
    obtain rfl := Option.some.inj ha'
    refine (h _ rfl).snoc _ ?_
    intro first mid hkey hgathers
    exact hgathers.extend later hkey.symm declared short
  | completes => cases ha'
  | swallowed => cases ha'

/-! ## Frames that are returned -/

/-- A frame that is returned when `f` is pushed after a history. The members of a split one are all
that was taken under its key since the first of them, and the key was not given up meanwhile. -/
def Delivers (history : List Deed) (f whole : Frame) : Prop :=
  if f.headers.continuation then
    ∃ early first mid, history = early ++ .pushed first (.ok none) :: mid ∧
      first.assemblyKey = f.assemblyKey ∧ first.isPrimary = true ∧
      (∀ d ∈ mid, d.Spares f.assemblyKey) ∧ .abandoned f.assemblyKey ∉ mid ∧
      whole =
        { first.unmarked with body := bodies (first :: (added f.assemblyKey mid ++ [f])) } ∧
      ∀ g ∈ first :: (added f.assemblyKey mid ++ [f]), g.headers.total = some whole.body.length
  else whole = f.unmarked ∧ ∀ total, f.headers.total = some total → total = whole.body.length

theorem Gathers.delivers (h : Gathers first mid a) {early : List Deed}
    (hsplit : history = early ++ .pushed first (.ok none) :: mid)
    (hkey : first.assemblyKey = f.assemblyKey) (hf : f.headers.continuation = true)
    (htotal : f.headers.total = some a.total) (hfull : a.received + f.body.length = a.total)
    (hkept : a.abandoned = false) : Delivers history f (a.extend f.body).finish := by
  have hprimary := h.kept_snoc f
  rw [hkept] at hprimary
  have hbody : (a.extend f.body).finish.body =
      bodies (first :: (added first.assemblyKey mid ++ [f])) := by
    rw [Assembly.finish, hprimary]
    rfl
  have hlength : (a.extend f.body).finish.body.length = a.total := by
    rw [hbody, ← h.received_snoc f, hfull]
  rw [Delivers, if_pos hf, ← hkey]
  refine ⟨early, first, mid, hsplit, rfl, h.primary, h.spared, ?_, ?_, ?_⟩
  · rw [← h.marked, hkept]
    exact Bool.noConfusion
  · rw [Assembly.finish, hprimary]
    rfl
  · rw [hlength]
    exact h.declared_snoc htotal

theorem delivers_single (hf : f.headers.continuation = false) (hnone : f.headers.total = none) :
    Delivers history f f := by
  rw [Delivers, hf, if_neg Bool.false_ne_true, Frame.unmarked_of_whole hf hnone, hnone]
  exact ⟨rfl, nofun⟩

theorem delivers_alone (hf : f.headers.continuation = false)
    (htotal : f.headers.total = some f.body.length) : Delivers history f f.unmarked := by
  rw [Delivers, hf, if_neg Bool.false_ne_true, htotal]
  exact ⟨rfl, fun total h => (Option.some.inj h).symm⟩

theorem delivers_of_pushed {a? a?' : Option Assembly} {whole : Frame}
    (h : ∀ a, a? = some a → Holds history f.assemblyKey a)
    (hpush : Pushed f a? (.ok (some whole)) a?') : Delivers history f whole := by
  cases hpush with
  | single _ own plain => exact delivers_single own plain
  | alone _ own declared => exact delivers_alone own declared
  | completes later declared full kept =>
    obtain ⟨early, first, mid, hsplit, hkey, hgathers⟩ := h _ rfl
    exact hgathers.delivers hsplit hkey later declared full kept

/-! ## All calls -/

/-- What is assembled, and what comes out when one more frame is pushed. -/
structure Sound (t : Trail) : Prop where
  /-- Every open assembly has what was taken since its payload was begun, and still lacks some. -/
  holds : ∀ key a, t.reassembler.view key = some a → Holds t.history key a
  /-- A frame that comes out is made of members of its own key. -/
  delivers : ∀ f whole, (t.reassembler.push f).1 = .ok (some whole) →
    whole.assemblyKey = f.assemblyKey ∧ Delivers t.history f whole
  /-- A split payload that came out is gone. -/
  gone : ∀ f whole, f.isMultipart = true → (t.reassembler.push f).1 = .ok (some whole) →
    (t.reassembler.push f).2.view f.assemblyKey = none
  /-- The member that fills an assembly brings its payload out, unless the key was abandoned. -/
  fills : ∀ f a, t.reassembler.view f.assemblyKey = some a → f.headers.continuation = true →
    f.headers.total = some a.total → a.received + f.body.length = a.total →
    a.abandoned = false → ∃ whole, (t.reassembler.push f).1 = .ok (some whole)
  /-- Frames, abandoning and discarding concern one key. -/
  apart : ∀ key, (∀ f, f.assemblyKey ≠ key →
      (t.reassembler.push f).2.view key = t.reassembler.view key) ∧
    ∀ key', key' ≠ key → (t.reassembler.abandon key').view key = t.reassembler.view key ∧
      (t.reassembler.discard key').view key = t.reassembler.view key

variable {t : Trail}

theorem holds_push (h : ∀ key a, t.reassembler.view key = some a → Holds t.history key a)
    (f : Frame) (key : AssemblyKey) (a : Assembly)
    (ha : (t.after (.push f)).reassembler.view key = some a) :
    Holds (t.after (.push f)).history key a := by
  obtain ⟨hanswer, hview⟩ := t.reassembler.push_view f
  have hpush := pushed_pushUnder f (t.reassembler.view f.assemblyKey)
  rw [← hanswer] at hpush
  have hafter : (t.reassembler.push f).2.view key = some a := ha
  rw [hview, Function.update_apply] at hafter
  by_cases hkey : key = f.assemblyKey
  · rw [if_pos hkey] at hafter
    rw [hkey]
    exact Holds.push (h f.assemblyKey) hpush a hafter
  · rw [if_neg hkey] at hafter
    have hother : f.assemblyKey ≠ key := Ne.symm hkey
    exact (h key a hafter).leave (Deed.spares_other _ hother) (Deed.member?_other _ hother) nofun

theorem holds_abandon (h : ∀ key a, t.reassembler.view key = some a → Holds t.history key a)
    (key' key : AssemblyKey) (a : Assembly)
    (ha : (t.after (.abandon key')).reassembler.view key = some a) :
    Holds (t.after (.abandon key')).history key a := by
  have hafter : (t.reassembler.abandon key').view key = some a := ha
  rw [view_abandon, Function.update_apply] at hafter
  by_cases hkey : key = key'
  · subst hkey
    rw [if_pos rfl] at hafter
    obtain ⟨b, hb, rfl⟩ := Option.map_eq_some_iff.mp hafter
    refine (h key b hb).snoc _ ?_
    rintro first mid rfl hgathers
    exact hgathers.abandon
  · rw [if_neg hkey] at hafter
    refine (h key a hafter).leave trivial rfl ?_
    intro heq
    exact hkey (Deed.abandoned.inj heq).symm

theorem holds_discard (h : ∀ key a, t.reassembler.view key = some a → Holds t.history key a)
    (key' key : AssemblyKey) (a : Assembly)
    (ha : (t.after (.discard key')).reassembler.view key = some a) :
    Holds (t.after (.discard key')).history key a := by
  have hafter : (t.reassembler.discard key').view key = some a := ha
  rw [view_discard, Function.update_apply] at hafter
  by_cases hkey : key = key'
  · rw [if_pos hkey] at hafter
    cases hafter
  · rw [if_neg hkey] at hafter
    have hspares : (Deed.discarded key').Spares key := Ne.symm hkey
    exact (h key a hafter).leave hspares rfl nofun

theorem holds_ofCalls (calls : List Call) :
    ∀ key a, (ofCalls calls).reassembler.view key = some a →
      Holds (ofCalls calls).history key a := by
  induction calls using List.reverseRecOn with
  | nil => exact fun key a ha => absurd ha (Option.some_ne_none a).symm
  | append_singleton calls c ih =>
    have hsnoc : ofCalls (calls ++ [c]) = (ofCalls calls).after c := by
      rw [ofCalls, List.foldl_append]
      rfl
    rw [hsnoc]
    cases c with
    | push f => exact holds_push ih f
    | abandon key => exact holds_abandon ih key
    | discard key => exact holds_discard ih key

theorem Delivers.assemblyKey {history : List Deed} {f whole : Frame}
    (h : Delivers history f whole) : whole.assemblyKey = f.assemblyKey := by
  rw [Delivers] at h
  by_cases hf : f.headers.continuation = true
  · rw [if_pos hf] at h
    obtain ⟨early, first, mid, -, hkey, -, -, -, rfl, -⟩ := h
    exact hkey
  · rw [if_neg hf] at h
    rw [h.1]
    rfl

theorem free_of_pushed {f whole : Frame} {a? a?' : Option Assembly} (hf : f.isMultipart = true)
    (hpush : Pushed f a? (.ok (some whole)) a?') : a?' = none := by
  cases hpush with
  | single _ own plain =>
    rw [Frame.isMultipart, own, plain] at hf
    cases hf
  | alone => rfl
  | completes => rfl

theorem pushUnder_fill {f : Frame} {a : Assembly}
    (hf : f.headers.continuation = true) (htotal : f.headers.total = some a.total)
    (hfull : a.received + f.body.length = a.total) (hkept : a.abandoned = false) :
    (pushUnder (some a) f).1 = .ok (some (a.extend f.body).finish) := by
  have hcomplete : (a.extend f.body).isComplete = true := beq_iff_eq.mpr hfull
  rw [pushUnder.eq_def, if_pos hf]
  simp only [Assembly.continueWith]
  rw [if_neg (not_not_intro htotal), if_neg (by omega), if_pos hcomplete, hkept]
  rfl

/-- Whatever is pushed, abandoned and discarded, in whatever order. -/
theorem ofCalls_sound (calls : List Call) : (ofCalls calls).Sound where
  holds := holds_ofCalls calls
  delivers := by
    intro f whole hwhole
    have hpush := pushed_pushUnder f ((ofCalls calls).reassembler.view f.assemblyKey)
    rw [← ((ofCalls calls).reassembler.push_view f).1, hwhole] at hpush
    have hdelivers := delivers_of_pushed (holds_ofCalls calls f.assemblyKey) hpush
    exact ⟨hdelivers.assemblyKey, hdelivers⟩
  gone := by
    intro f whole hf hwhole
    have hpush := pushed_pushUnder f ((ofCalls calls).reassembler.view f.assemblyKey)
    obtain ⟨hanswer, hview⟩ := (ofCalls calls).reassembler.push_view f
    rw [← hanswer, hwhole] at hpush
    rw [hview, Function.update_self]
    exact free_of_pushed hf hpush
  fills := by
    intro f a ha hf htotal hfull hkept
    refine ⟨(a.extend f.body).finish, ?_⟩
    rw [(push_view _ f).1, ha]
    exact pushUnder_fill hf htotal hfull hkept
  apart := by
    intro key
    refine ⟨?_, ?_⟩
    · intro f hkey
      rw [(push_view _ f).2, Function.update_of_ne hkey.symm]
    · intro key' hkey
      rw [view_abandon, view_discard, Function.update_of_ne hkey.symm,
        Function.update_of_ne hkey.symm]
      exact ⟨rfl, rfl⟩

/-- A payload that was given up leaves nothing in the next one of its key. -/
example : ((ofCalls [.push (answer.firstFrame [9, 9]), .abandon answer.key,
    .push (answer.firstFrame [4, 5])]).reassembler.push (answer.laterFrame [6])).1 =
      .ok (some answer.whole) := by
  rfl

end Trail
end Reassembler
end PeerLink
