import Mathlib.Data.List.Induction
import Mathlib.Logic.Function.Basic
import PeerLink.Proofs.Assembly
import PeerLink.Proofs.Tables

/-! # Split payloads on their way together

* `Reassembler.view`: the assembly under each key. A frame concerns its own key only, and what
  becomes of it is `Reassembler.pushUnder`.
* `Payload`: a body with the frame it would travel in if it fitted.
* `Payload.Awaits`: the assembly of a payload while the rest of its frames is still to come.
* `Reassembler.Interleaves`: the frames of several payloads in one sequence, with keys abandoned
  anywhere between them.
* `Reassembler.reassembles`: every payload comes out whole with its last frame, unless its key was
  abandoned on the way, and leaves nothing behind.
-/

namespace PeerLink
set_option autoImplicit false

/-! ## One key -/

namespace Assembly

def continueWith (a : Assembly) (f : Frame) : Reassembler.Outcome × Option Assembly :=
  if f.headers.total ≠ some a.total then (.error (.badMultipart f.rid .totalChanged), some a)
  else if a.total < a.received + f.body.length then
    (.error (.badMultipart f.rid .overrun), some a)
  else if (a.extend f.body).isComplete then
    (.ok (if a.abandoned then none else some (a.extend f.body).finish), none)
  else (.ok none, some (a.extend f.body))

def ofPrimary (f : Frame) (total : Nat) : Assembly :=
  { primary := f, total, received := f.body.length }

def beginWith (f : Frame) (total : Nat) : Reassembler.Outcome × Option Assembly :=
  if total < f.body.length then (.error (.badMultipart f.rid .primaryTooLong), none)
  else if (ofPrimary f total).isComplete then (.ok (some (ofPrimary f total).finish), none)
  else (.ok none, some (ofPrimary f total))

end Assembly

namespace Reassembler

def view (r : Reassembler) (key : AssemblyKey) : Option Assembly := r.assemblies.get? key

/-- What becomes of a frame, and of the assembly under its key. -/
def pushUnder (a? : Option Assembly) (f : Frame) : Outcome × Option Assembly :=
  if f.headers.continuation then
    match a? with
    | none => (.error (.badMultipart f.rid .orphan), none)
    | some a => a.continueWith f
  else
    match f.headers.total with
    | none => (.ok (some f), a?)
    | some total =>
      match a?.filter (!·.abandoned) with
      | some a => (.error (.badMultipart f.rid .primaryWhileOpen), some a)
      | none => Assembly.beginWith f total

theorem view_discard (r : Reassembler) (key : AssemblyKey) :
    (r.discard key).view = Function.update r.view key none := by
  funext k
  simp only [view, discard, Table.get?_erase, Function.update_apply]

theorem view_abandon (r : Reassembler) (key : AssemblyKey) :
    (r.abandon key).view = Function.update r.view key ((r.view key).map Assembly.abandon) := by
  funext k
  simp only [view, abandon, Table.get?_modify, Function.update_apply]
  split
  · rename_i hk
    rw [hk]
  · rfl

theorem view_insert (r : Reassembler) (key : AssemblyKey) (a : Assembly) :
    (Reassembler.mk (r.assemblies.insert key a)).view = Function.update r.view key (some a) := by
  funext k
  simp only [view, Table.get?_insert, Function.update_apply]

theorem view_modify {r : Reassembler} {key : AssemblyKey} {a : Assembly} (h : r.view key = some a)
    (a' : Assembly) :
    (Reassembler.mk (r.assemblies.modify key fun _ => a')).view =
      Function.update r.view key (some a') := by
  funext k
  simp only [view, Table.get?_modify, Function.update_apply] at h ⊢
  split
  · rename_i hk
    rw [hk, h, Option.map_some]
  · rfl

theorem update_self_view (r : Reassembler) {key : AssemblyKey} {a? : Option Assembly}
    (h : r.view key = a?) : r.view = Function.update r.view key a? := by
  rw [← h, Function.update_eq_self]

theorem pushContinuation_view (r : Reassembler) {f : Frame} (hf : f.headers.continuation = true) :
    (r.pushContinuation f).1 = (pushUnder (r.view f.assemblyKey) f).1 ∧
      (r.pushContinuation f).2.view =
        Function.update r.view f.assemblyKey (pushUnder (r.view f.assemblyKey) f).2 := by
  rw [pushUnder.eq_def, if_pos hf, pushContinuation]
  cases ha : r.view f.assemblyKey with
  | none =>
    have ha' : r.assemblies.get? f.assemblyKey = none := ha
    rw [ha']
    exact ⟨rfl, r.update_self_view ha⟩
  | some a =>
    have ha' : r.assemblies.get? f.assemblyKey = some a := ha
    have habandoned : (a.extend f.body).abandoned = a.abandoned := rfl
    rw [ha']
    simp only [Assembly.continueWith, habandoned]
    split_ifs
    · exact ⟨rfl, r.update_self_view ha⟩
    · exact ⟨rfl, r.update_self_view ha⟩
    · exact ⟨rfl, r.view_discard _⟩
    · exact ⟨rfl, r.view_discard _⟩
    · exact ⟨rfl, view_modify ha _⟩

theorem pushPrimary_free {r : Reassembler} {f : Frame} (h : r.view f.assemblyKey = none)
    (total : Nat) :
    (r.pushPrimary f total).1 = (Assembly.beginWith f total).1 ∧
      (r.pushPrimary f total).2.view =
        Function.update r.view f.assemblyKey (Assembly.beginWith f total).2 := by
  have h' : r.assemblies.get? f.assemblyKey = none := h
  have hpush : r.pushPrimary f total =
      if total < f.body.length then (.error (.badMultipart f.rid .primaryTooLong), r)
      else if (Assembly.ofPrimary f total).isComplete then
        (.ok (some (Assembly.ofPrimary f total).finish), r)
      else (.ok none, ⟨r.assemblies.insert f.assemblyKey (.ofPrimary f total)⟩) := by
    simp only [pushPrimary, h', Option.any_none, Bool.false_eq_true, if_false, Table.contains,
      Option.isSome_none, Assembly.ofPrimary]
    rfl
  rw [hpush, Assembly.beginWith]
  split_ifs
  · exact ⟨rfl, r.update_self_view h⟩
  · exact ⟨rfl, r.update_self_view h⟩
  · exact ⟨rfl, r.view_insert _ _⟩

theorem pushPrimary_open {r : Reassembler} {f : Frame} {a : Assembly}
    (h : r.view f.assemblyKey = some a) (ha : a.abandoned = false) (total : Nat) :
    r.pushPrimary f total = (.error (.badMultipart f.rid .primaryWhileOpen), r) := by
  have h' : r.assemblies.get? f.assemblyKey = some a := h
  simp [pushPrimary, h', ha, Table.contains]

theorem pushPrimary_abandoned {r : Reassembler} {f : Frame} {a : Assembly}
    (h : r.view f.assemblyKey = some a) (ha : a.abandoned = true) (total : Nat) :
    r.pushPrimary f total = (r.discard f.assemblyKey).pushPrimary f total := by
  have h' : r.assemblies.get? f.assemblyKey = some a := h
  have hfree : (r.discard f.assemblyKey).assemblies.get? f.assemblyKey = none := by
    rw [discard, Table.get?_erase, if_pos rfl]
  simp only [pushPrimary, h', hfree, Option.any_some, ha, if_true, Option.any_none,
    Bool.false_eq_true, if_false]

/-- A frame concerns the assembly of its own key only. -/
theorem push_view (r : Reassembler) (f : Frame) :
    (r.push f).1 = (pushUnder (r.view f.assemblyKey) f).1 ∧
      (r.push f).2.view =
        Function.update r.view f.assemblyKey (pushUnder (r.view f.assemblyKey) f).2 := by
  unfold push
  by_cases hf : f.headers.continuation = true
  · rw [if_pos hf]
    exact r.pushContinuation_view hf
  rw [if_neg hf, pushUnder.eq_def, if_neg hf]
  cases f.headers.total with
  | none => exact ⟨rfl, r.update_self_view rfl⟩
  | some total =>
    cases h : r.view f.assemblyKey with
    | none => exact pushPrimary_free h total
    | some a =>
      by_cases ha : a.abandoned = true
      · have hfree : (r.discard f.assemblyKey).view f.assemblyKey = none := by
          rw [view_discard, Function.update_self]
        have hpush := pushPrimary_free hfree total
        rw [view_discard, Function.update_idem] at hpush
        simp only [pushPrimary_abandoned h ha, Option.filter, ha]
        exact hpush
      · simp only [pushPrimary_open h (Bool.eq_false_iff.mpr ha), Option.filter, ha]
        exact ⟨rfl, r.update_self_view h⟩

end Reassembler

/-! ## Payloads -/

/-- A body, and the frame that it travels in if it fits. -/
structure Payload where
  template : Frame
  body : Bytes

namespace Payload

def key (p : Payload) : AssemblyKey := p.template.assemblyKey

def frames (maxBody : Nat) (p : Payload) : List Frame := p.template.split p.body maxBody

def whole (p : Payload) : Frame := { p.template with body := p.body }

/-- The template is no member of a split payload, and the length of the body is a word. -/
structure Plain (p : Payload) : Prop where
  total : p.template.headers.total = none
  single : p.template.headers.continuation = false
  length : p.body.length < 2 ^ 32

/-- The first member when some of the body has come. -/
def firstFrame (p : Payload) (got : Bytes) : Frame :=
  { p.template with
    headers := { p.template.headers with total := some p.body.length }, body := got }

def laterFrame (p : Payload) (c : Bytes) : Frame := p.template.continuation p.body.length c

theorem Plain.frames_cases {p : Payload} {maxBody : Nat} (h : p.Plain) (hmax : 0 < maxBody) :
    (p.body.length ≤ maxBody ∧ p.frames maxBody = [p.whole]) ∨
    ∃ first later, first ++ later.flatten = p.body ∧ later ≠ [] ∧
      (∀ c ∈ first :: later, c ≠ [] ∧ c.length ≤ maxBody) ∧
      p.frames maxBody = p.firstFrame first :: later.map p.laterFrame :=
  p.template.split_cases hmax h.length

theorem length_body_frames {p : Payload} {maxBody : Nat} (hmax : 0 < maxBody) (h : p.Plain)
    (f : Frame) (hf : f ∈ p.frames maxBody) : f.body.length ≤ maxBody := by
  obtain ⟨hfits, hframes⟩ | ⟨first, later, -, -, hpieces, hframes⟩ := h.frames_cases hmax
  · rw [hframes, List.mem_singleton] at hf
    rw [hf]
    exact hfits
  · rw [hframes, List.mem_cons, List.mem_map] at hf
    obtain rfl | ⟨c, hc, rfl⟩ := hf
    · exact (hpieces first List.mem_cons_self).2
    · exact (hpieces c (List.mem_cons_of_mem first hc)).2

theorem assemblyKey_of_mem {p : Payload} {maxBody : Nat} (hmax : 0 < maxBody) (h : p.Plain)
    {f : Frame} (hf : f ∈ p.frames maxBody) : f.assemblyKey = p.key := by
  obtain ⟨-, hframes⟩ | ⟨first, later, -, -, -, hframes⟩ := h.frames_cases hmax
  · rw [hframes, List.mem_singleton] at hf
    rw [hf]
    rfl
  · rw [hframes, List.mem_cons, List.mem_map] at hf
    obtain rfl | ⟨c, -, rfl⟩ := hf <;> rfl

end Payload

/-- An assembly has got a payload but for the given pieces. Of an abandoned one only the lengths are
known. -/
structure Assembly.Gathers (a : Assembly) (p : Payload) (rest : List Bytes) : Prop where
  total : a.total = p.body.length
  more : rest ≠ []
  filled : ∀ c ∈ rest, c ≠ []
  length : a.received + rest.flatten.length = a.total
  got : a.abandoned = false →
    ∃ got, a.primary = p.firstFrame got ∧ got ++ rest.flatten = p.body

namespace Assembly
variable {a : Assembly} {p : Payload} {c : Bytes} {rest : List Bytes}

theorem Gathers.abandon (h : a.Gathers p rest) : a.abandon.Gathers p rest :=
  ⟨h.total, h.more, h.filled, h.length, nofun⟩

theorem Gathers.extend_got (h : a.Gathers p (c :: rest)) (hab : a.abandoned = false) :
    ∃ got, (a.extend c).primary = p.firstFrame got ∧ got ++ rest.flatten = p.body := by
  obtain ⟨got, hprimary, hbody⟩ := h.got hab
  refine ⟨got ++ c, ?_, ?_⟩
  · simp [extend, hab, hprimary, Payload.firstFrame]
  · rw [List.append_assoc, ← List.flatten_cons]
    exact hbody

theorem Gathers.extend (h : a.Gathers p (c :: rest)) (hne : rest ≠ []) :
    (a.extend c).Gathers p rest where
  total := h.total
  more := hne
  filled := fun d hd => h.filled d (List.mem_cons_of_mem c hd)
  length := by
    have := h.length
    simp only [List.flatten_cons, List.length_append, Assembly.extend] at this ⊢
    omega
  got := h.extend_got

theorem Gathers.finish (h : a.Gathers p [c]) (hp : p.Plain) (hab : a.abandoned = false) :
    (a.extend c).finish = p.whole := by
  obtain ⟨got, hprimary, hbody⟩ := h.extend_got hab
  rw [List.flatten_nil, List.append_nil] at hbody
  have htotal := hp.total
  have hsingle := hp.single
  obtain ⟨⟨type, rid, ack, ⟨path, qos, status, permit, seq, total, continuation⟩, _⟩, body⟩ := p
  simp only at htotal hsingle hbody
  simp [Assembly.finish, hprimary, Payload.firstFrame, Payload.whole, hbody, htotal, hsingle]

/-- A continuation adds its piece; the last one ends the assembly. -/
theorem Gathers.continueWith (h : a.Gathers p (c :: rest)) (hp : p.Plain) :
    a.continueWith (p.laterFrame c) =
      if rest = [] then (.ok (if a.abandoned then none else some p.whole), none)
      else (.ok none, some (a.extend c)) := by
  have htotal : (p.laterFrame c).headers.total = some a.total := by
    rw [h.total]
    rfl
  have hfits : ¬ a.total < a.received + c.length := by
    have := h.length
    rw [List.flatten_cons, List.length_append] at this
    omega
  have hbody : (p.laterFrame c).body = c := rfl
  rw [Assembly.continueWith, if_neg (not_not_intro htotal), hbody, if_neg hfits,
    Assembly.isComplete_extend h.length fun d hd => h.filled d (List.mem_cons_of_mem c hd)]
  cases rest with
  | nil =>
    simp only [List.isEmpty_nil, if_true]
    by_cases hab : a.abandoned = true
    · rw [if_pos hab, if_pos hab]
    · rw [if_neg hab, if_neg hab, h.finish hp (Bool.eq_false_iff.mpr hab)]
  | cons d rest => simp

end Assembly

namespace Payload

/-- The assembly under the key of a payload when the frames `fs` of it are still to come. Whether it
was abandoned on its way is `cut`. -/
inductive Awaits (maxBody : Nat) (p : Payload) (cut : Prop) : List Frame → Option Assembly → Prop
  | before (whole : ¬ cut) : Awaits maxBody p cut (p.frames maxBody) none
  | within {a : Assembly} {rest : List Bytes} (gathers : a.Gathers p rest)
      (fewer : rest.length < (p.frames maxBody).length) (marked : cut ↔ a.abandoned = true) :
      Awaits maxBody p cut (rest.map p.laterFrame) (some a)
  | after : Awaits maxBody p cut [] none

variable {maxBody : Nat} {p : Payload} {cut : Prop} {f : Frame} {fs : List Frame}
  {a? : Option Assembly}

theorem Awaits.abandon (h : Awaits maxBody p cut fs a?) :
    Awaits maxBody p (cut ∨ fs.length < (p.frames maxBody).length) fs
      (a?.map Assembly.abandon) := by
  cases h with
  | before whole => exact .before (by simpa using whole)
  | within gathers fewer marked =>
    refine .within gathers.abandon fewer ?_
    rw [List.length_map]
    exact ⟨fun _ => rfl, fun _ => .inr fewer⟩
  | after => exact .after

theorem pushUnder_whole (hp : p.Plain) (a? : Option Assembly) :
    Reassembler.pushUnder a? p.whole = (.ok (some p.whole), a?) := by
  have htotal : p.whole.headers.total = none := hp.total
  have hsingle : p.whole.headers.continuation = false := hp.single
  simp only [Reassembler.pushUnder, htotal, hsingle, Bool.false_eq_true, if_false]

theorem pushUnder_first (hp : p.Plain) {first : Bytes} {later : List Bytes}
    (hbody : first ++ later.flatten = p.body) (hmore : later ≠ [])
    (hfilled : ∀ c ∈ later, c ≠ []) :
    Reassembler.pushUnder none (p.firstFrame first) =
        (.ok none, some (.ofPrimary (p.firstFrame first) p.body.length)) ∧
      (Assembly.ofPrimary (p.firstFrame first) p.body.length).Gathers p later := by
  have hlen : first.length + later.flatten.length = p.body.length := by
    rw [← List.length_append, hbody]
  obtain ⟨c, hc⟩ := List.exists_mem_of_ne_nil later hmore
  have hpos : 0 < later.flatten.length :=
    Nat.lt_of_lt_of_le (List.length_pos_iff.mpr (hfilled c hc))
      (List.sublist_flatten_of_mem hc).length_le
  have hsingle : (p.firstFrame first).headers.continuation = false := hp.single
  have htotal : (p.firstFrame first).headers.total = some p.body.length := rfl
  have hfits : ¬ p.body.length < (p.firstFrame first).body.length :=
    Nat.not_lt.mpr (hlen ▸ Nat.le_add_right _ _)
  have hopen : (Assembly.ofPrimary (p.firstFrame first) p.body.length).isComplete = false := by
    have hne : first.length ≠ p.body.length := by omega
    exact beq_eq_false_iff_ne.mpr hne
  refine ⟨?_, rfl, hmore, hfilled, hlen, fun _ => ⟨first, rfl, hbody⟩⟩
  simp only [Reassembler.pushUnder, hsingle, htotal, Option.filter, Assembly.beginWith, hfits,
    hopen, Bool.false_eq_true, if_false]

theorem Awaits.view_nil (h : Awaits maxBody p cut [] a?) : a? = none := by
  generalize hfs : ([] : List Frame) = fs at h
  cases h with
  | before => rfl
  | within gathers => exact absurd (List.map_eq_nil_iff.mp hfs.symm) gathers.more
  | after => rfl

/-- The next frame leads to nothing unless it is the last, and then to the whole. -/
theorem Awaits.push (hp : p.Plain) (hmax : 0 < maxBody) (h : Awaits maxBody p cut (f :: fs) a?) :
    ((fs = [] ∧ ¬ cut → (Reassembler.pushUnder a? f).1 = .ok (some p.whole)) ∧
      (¬ (fs = [] ∧ ¬ cut) → (Reassembler.pushUnder a? f).1 = .ok none)) ∧
      Awaits maxBody p cut fs (Reassembler.pushUnder a? f).2 := by
  generalize hfs : f :: fs = fs' at h
  cases h with
  | before whole =>
    obtain ⟨-, hframes⟩ | ⟨first, later, hbody, hmore, hpieces, hframes⟩ := hp.frames_cases hmax
    · rw [hframes] at hfs
      obtain ⟨rfl, rfl⟩ := List.cons.inj hfs
      rw [pushUnder_whole hp]
      exact ⟨⟨fun _ => rfl, fun h => absurd ⟨rfl, whole⟩ h⟩, .after⟩
    · rw [hframes] at hfs
      obtain ⟨rfl, rfl⟩ := List.cons.inj hfs
      obtain ⟨hpush, hgathers⟩ := pushUnder_first hp hbody hmore fun c hc =>
        (hpieces c (List.mem_cons_of_mem first hc)).1
      rw [hpush]
      refine ⟨⟨fun h => absurd (List.map_eq_nil_iff.mp h.1) hmore, fun _ => rfl⟩,
        .within hgathers ?_ ⟨fun hcut => absurd hcut whole, nofun⟩⟩
      rw [hframes, List.length_cons, List.length_map]
      exact Nat.lt_succ_self _
  | @within a rest gathers fewer marked =>
    cases rest with
    | nil => cases hfs
    | cons c rest =>
      obtain ⟨rfl, rfl⟩ := List.cons.inj hfs
      have hlater : (p.laterFrame c).headers.continuation = true := rfl
      rw [Reassembler.pushUnder.eq_def, if_pos hlater]
      dsimp only
      rw [gathers.continueWith hp, List.map_eq_nil_iff]
      by_cases hrest : rest = []
      · subst hrest
        rw [if_pos rfl]
        refine ⟨?_, .after⟩
        by_cases hab : a.abandoned = true
        · rw [if_pos hab]
          exact ⟨fun h => absurd (marked.mpr hab) h.2, fun _ => rfl⟩
        · rw [if_neg hab]
          exact ⟨fun _ => rfl, fun h => absurd ⟨rfl, fun hcut => hab (marked.mp hcut)⟩ h⟩
      · rw [if_neg hrest]
        exact ⟨⟨fun h => absurd h.1 hrest, fun _ => rfl⟩,
          .within (gathers.extend hrest) (Nat.lt_of_succ_lt fewer) marked⟩
  | after => cases hfs

end Payload

/-! ## Interleavings -/

namespace Reassembler

/-- What can be done with a reassembler while payloads are on their way. -/
inductive Event
  | push (f : Frame)
  | abandon (key : AssemblyKey)
deriving DecidableEq

def after (r : Reassembler) : Event → Reassembler
  | .push f => (r.push f).2
  | .abandon key => r.abandon key

def run (r : Reassembler) (es : List Event) : Reassembler := es.foldl after r

/-- The frames that are pushed under a key. -/
def pushed (key : AssemblyKey) (es : List Event) : List Frame :=
  es.filterMap fun
    | .push f => if f.assemblyKey = key then some f else none
    | .abandon _ => none

/-- The key was given up after a frame had been pushed under it. -/
def Dropped (key : AssemblyKey) (es : List Event) : Prop :=
  ∃ early, early ++ [.abandon key] <+: es ∧ pushed key early ≠ []

theorem pushed_map_push {key : AssemblyKey} {fs : List Frame}
    (h : ∀ f ∈ fs, f.assemblyKey = key) : pushed key (fs.map .push) = fs := by
  rw [pushed, List.filterMap_map]
  calc
    _ = fs.filterMap some := List.filterMap_congr fun f hf => if_pos (h f hf)
    _ = fs := List.filterMap_some

theorem not_dropped_map_push (key : AssemblyKey) (fs : List Frame) :
    ¬ Dropped key (fs.map .push) := by
  rintro ⟨early, hpre, -⟩
  have hmem : Event.abandon key ∈ fs.map .push := hpre.subset (by simp)
  simp at hmem

/-- Frames of payloads and no others, those of each payload in their order. -/
structure Interleaves (maxBody : Nat) (ps : List Payload) (es : List Event) : Prop where
  frames : ∀ p ∈ ps, pushed p.key es = p.frames maxBody
  only : ∀ f, .push f ∈ es → ∃ p ∈ ps, f.assemblyKey = p.key

theorem Interleaves.pushed_other {maxBody : Nat} {ps : List Payload} {es : List Event}
    {key : AssemblyKey} (h : Interleaves maxBody ps es) (hkey : ∀ p ∈ ps, p.key ≠ key) :
    pushed key es = [] := by
  rw [List.eq_nil_iff_forall_not_mem]
  intro f hf
  obtain ⟨e, he, hfe⟩ := List.mem_filterMap.mp hf
  cases e with
  | abandon key' => cases hfe
  | push g =>
    obtain ⟨p, hp, hg⟩ := h.only g he
    dsimp only at hfe
    split at hfe
    · rename_i hgk
      exact hkey p hp (hg.symm.trans hgk)
    · cases hfe

variable {r : Reassembler} {key : AssemblyKey} {es : List Event} {maxBody : Nat} {p : Payload}

theorem run_snoc (r : Reassembler) (es : List Event) (e : Event) :
    r.run (es ++ [e]) = (r.run es).after e := by
  rw [run, List.foldl_append]
  rfl

theorem pushed_snoc (key : AssemblyKey) (es : List Event) (e : Event) :
    pushed key (es ++ [e]) = pushed key es ++ pushed key [e] := List.filterMap_append

theorem dropped_snoc_push (f : Frame) :
    Dropped key (es ++ [.push f]) ↔ Dropped key es := by
  simp [Dropped, List.prefix_concat_iff]

theorem dropped_snoc_abandon (key' : AssemblyKey) :
    Dropped key (es ++ [.abandon key']) ↔ Dropped key es ∨ key' = key ∧ pushed key es ≠ [] := by
  constructor
  · rintro ⟨early, hpre, hne⟩
    rcases List.prefix_concat_iff.mp hpre with heq | hpre
    · obtain ⟨rfl, hlast⟩ := List.append_inj' heq rfl
      exact .inr ⟨(Event.abandon.inj (List.cons.inj hlast).1).symm, hne⟩
    · exact .inl ⟨early, hpre, hne⟩
  · rintro (⟨early, hpre, hne⟩ | ⟨rfl, hne⟩)
    · exact ⟨early, hpre.trans (List.prefix_append _ _), hne⟩
    · exact ⟨es, List.prefix_rfl, hne⟩

theorem view_after_push_other (r : Reassembler) {f : Frame} (h : f.assemblyKey ≠ key) :
    (r.after (.push f)).view key = r.view key := by
  rw [after, (r.push_view f).2, Function.update_of_ne (Ne.symm h)]

theorem view_after_abandon (r : Reassembler) (key' : AssemblyKey) :
    (r.after (.abandon key')).view key =
      if key' = key then (r.view key).map Assembly.abandon else r.view key := by
  rw [after, view_abandon, Function.update_apply]
  by_cases h : key = key'
  · rw [if_pos h, if_pos h.symm, h]
  · rw [if_neg h, if_neg (Ne.symm h)]

/-- What the frames of a payload that came so far have led to, whatever came in between. -/
theorem awaits_run (hp : p.Plain) (hmax : 0 < maxBody) (hfree : r.view p.key = none)
    {es : List Event} {fs : List Frame} (hframes : pushed p.key es ++ fs = p.frames maxBody) :
    Payload.Awaits maxBody p (Dropped p.key es) fs ((r.run es).view p.key) := by
  -- The events are taken from the front, so the last one is peeled off; `fs` is what then remains.
  induction es using List.reverseRecOn generalizing fs with
  | nil =>
    have hnot : ¬ Dropped p.key [] := by simp [Dropped]
    have hall : fs = p.frames maxBody := hframes
    rw [hall, show (r.run []).view p.key = none from hfree]
    exact .before hnot
  | append_singleton es e ih =>
    rw [run_snoc]
    rw [pushed_snoc, List.append_assoc] at hframes
    have hawaits := ih hframes
    cases e with
    | push f =>
      rw [dropped_snoc_push]
      by_cases hkey : f.assemblyKey = p.key
      · have hone : pushed p.key [.push f] = [f] := by simp [pushed, hkey]
        rw [hone] at hawaits
        have hview : (after (r.run es) (.push f)).view p.key =
            (pushUnder ((r.run es).view p.key) f).2 := by
          rw [after, (push_view _ f).2, hkey, Function.update_self]
        rw [hview]
        exact (hawaits.push hp hmax).2
      · have hnone : pushed p.key [.push f] = [] := by simp [pushed, hkey]
        rw [hnone] at hawaits
        rw [view_after_push_other _ hkey]
        exact hawaits
    | abandon key =>
      have hnone : pushed p.key [.abandon key] = [] := rfl
      rw [hnone] at hawaits hframes
      have hlen : fs.length < (p.frames maxBody).length ↔ pushed p.key es ≠ [] := by
        rw [← hframes, List.nil_append, List.length_append, ← List.length_pos_iff]
        omega
      rw [dropped_snoc_abandon, view_after_abandon]
      by_cases hkey : key = p.key
      · rw [if_pos hkey, ← hlen, and_iff_right hkey]
        exact hawaits.abandon
      · rw [if_neg hkey]
        simpa only [hkey, false_and, or_false, List.nil_append] using hawaits

/-- A key under which nothing is pushed keeps what it has. -/
theorem view_run_idle (r : Reassembler) {es : List Event} (h : pushed key es = []) :
    (r.run es).view key =
      if .abandon key ∈ es then (r.view key).map Assembly.abandon else r.view key := by
  induction es using List.reverseRecOn with
  | nil => rfl
  | append_singleton es e ih =>
    rw [pushed_snoc, List.append_eq_nil_iff] at h
    have hrest := ih h.1
    rw [run_snoc]
    cases e with
    | push f =>
      have hkey : f.assemblyKey ≠ key := by
        intro hkey
        simp [pushed, hkey] at h
      rw [view_after_push_other _ hkey, hrest]
      simp
    | abandon key' =>
      rw [view_after_abandon, hrest]
      by_cases hkey : key' = key
      · subst hkey
        have htwice : Assembly.abandon ∘ Assembly.abandon = Assembly.abandon := rfl
        by_cases hmem : .abandon key' ∈ es <;> simp [hmem, htwice]
      · simp [hkey, Ne.symm hkey]

/-- Payloads with different keys, none of which is in use. -/
structure Family (r : Reassembler) (ps : List Payload) : Prop where
  distinct : (ps.map Payload.key).Nodup
  plain : ∀ p ∈ ps, p.Plain
  free : ∀ p ∈ ps, r.view p.key = none

theorem pushed_push (f : Frame) (es : List Event) :
    pushed f.assemblyKey (.push f :: es) = f :: pushed f.assemblyKey es := by
  simp [pushed]

/-- The frames that a payload still waits for, when one of its own is next. -/
theorem Interleaves.awaits {ps : List Payload} (hfamily : r.Family ps) (hmax : 0 < maxBody)
    (hes : Interleaves maxBody ps es) (hp : p ∈ ps) {pre post : List Event} {f : Frame}
    (hsplit : es = pre ++ .push f :: post) (hkey : f.assemblyKey = p.key) :
    Payload.Awaits maxBody p (Dropped p.key pre) (f :: pushed p.key post)
      ((r.run pre).view f.assemblyKey) := by
  have hframes := hes.frames p hp
  rw [hsplit, pushed, List.filterMap_append] at hframes
  rw [hkey]
  refine awaits_run (hfamily.plain p hp) hmax (hfamily.free p hp) ?_
  rw [← hframes, ← hkey, ← pushed_push]
  rfl

theorem Interleaves.view_free {ps : List Payload} (hfamily : r.Family ps) (hmax : 0 < maxBody)
    (hes : Interleaves maxBody ps es) (hfree : r.view key = none) :
    (r.run es).view key = none := by
  by_cases hown : ∃ p ∈ ps, p.key = key
  · obtain ⟨p, hp, rfl⟩ := hown
    have hall : pushed p.key es ++ [] = p.frames maxBody := by
      rw [List.append_nil, hes.frames p hp]
    exact (awaits_run (hfamily.plain p hp) hmax hfree hall).view_nil
  · rw [view_run_idle r (hes.pushed_other fun p hp hkey => hown ⟨p, hp, hkey⟩), hfree]
    split <;> rfl

/-- Whatever happens between them, the frames of payloads lead to the payloads. -/
structure Restores (maxBody : Nat) (r : Reassembler) (ps : List Payload) (es : List Event) :
    Prop where
  bound : ∀ p ∈ ps, ∀ f ∈ p.frames maxBody, f.body.length ≤ maxBody
  /-- The last frame of a payload gives all of it, if its key was not given up since the first. -/
  whole : ∀ p ∈ ps, ∀ pre f post, es = pre ++ .push f :: post → f.assemblyKey = p.key →
    pushed p.key post = [] → ¬ Dropped p.key pre → ((r.run pre).push f).1 = .ok (some p.whole)
  /-- Other frames give nothing, and are no error. -/
  nothing : ∀ p ∈ ps, ∀ pre f post, es = pre ++ .push f :: post → f.assemblyKey = p.key →
    pushed p.key post ≠ [] ∨ Dropped p.key pre → ((r.run pre).push f).1 = .ok none
  free : ∀ key, r.view key = none → (r.run es).view key = none
  /-- What is assembled under other keys is as it was. -/
  others : ∀ key, (∀ p ∈ ps, p.key ≠ key) → .abandon key ∉ es →
    (r.run es).view key = r.view key
  /-- One more payload, under whatever free key, is restored as well. -/
  again : ∀ q : Payload, q.Plain → r.view q.key = none →
    ∀ pre f post, q.frames maxBody = pre ++ f :: post →
      (((r.run es).run (pre.map .push)).push f).1 =
        .ok (if post.isEmpty then some q.whole else none)

theorem reassembles (hmax : 0 < maxBody) {ps : List Payload} (hfamily : r.Family ps)
    (hes : Interleaves maxBody ps es) : Restores maxBody r ps es where
  bound := fun p hp => Payload.length_body_frames hmax (hfamily.plain p hp)
  whole := by
    intro p hp pre f post hsplit hkey hlast hkept
    have hnext := (hes.awaits hfamily hmax hp hsplit hkey).push (hfamily.plain p hp) hmax
    rw [(push_view _ f).1]
    exact hnext.1.1 ⟨hlast, hkept⟩
  nothing := by
    intro p hp pre f post hsplit hkey hmore
    have hnext := (hes.awaits hfamily hmax hp hsplit hkey).push (hfamily.plain p hp) hmax
    rw [(push_view _ f).1]
    refine hnext.1.2 ?_
    rintro ⟨hlast, hkept⟩
    exact hmore.elim (absurd hlast) (absurd · hkept)
  free := fun key => hes.view_free hfamily hmax
  others := by
    intro key hother habandon
    rw [view_run_idle r (hes.pushed_other hother), if_neg habandon]
  again := by
    intro q hq hfree pre f post hsplit
    have hempty := hes.view_free hfamily hmax hfree
    have hkey : ∀ g ∈ pre ++ f :: post, g.assemblyKey = q.key := by
      rw [← hsplit]
      exact fun g hg => Payload.assemblyKey_of_mem hmax hq hg
    have hall : pushed q.key (pre.map .push) ++ f :: post = q.frames maxBody := by
      rw [hsplit, pushed_map_push fun g hg => hkey g (List.mem_append_left _ hg)]
    have hnext := (awaits_run hq hmax hempty hall).push hq hmax
    rw [(push_view _ f).1, hkey f (by simp)]
    cases post with
    | nil => exact hnext.1.1 ⟨rfl, not_dropped_map_push _ _⟩
    | cons g post => exact hnext.1.2 fun h => absurd h.1 (List.cons_ne_nil g post)

/-- A request and a response of one number in two frames each. -/
def question : Payload := ⟨{ type := .request .invoke, rid := 1 }, [1, 2, 3]⟩

def answer : Payload := ⟨{ type := .response, rid := 1 }, [4, 5, 6]⟩

/-- The response is given up between its frames, the request is not. -/
def crossing : List Event :=
  [.push (question.firstFrame [1, 2]), .push (answer.firstFrame [4, 5]), .abandon answer.key,
    .push (question.laterFrame [3]), .push (answer.laterFrame [6])]

theorem crossing_reassembles : Family {} [question, answer] ∧
    Interleaves 2 [question, answer] crossing ∧ Restores 2 {} [question, answer] crossing := by
  have hfamily : Family {} [question, answer] := by
    refine ⟨by decide, fun p hp => ?_, fun p _ => rfl⟩
    rcases List.mem_pair.mp hp with rfl | rfl
    · exact ⟨rfl, rfl, by decide⟩
    · exact ⟨rfl, rfl, by decide⟩
  have hcrossing : Interleaves 2 [question, answer] crossing :=
    ⟨by decide +kernel, by simp [crossing]; decide⟩
  exact ⟨hfamily, hcrossing, reassembles (by decide) hfamily hcrossing⟩

end Reassembler
end PeerLink
