import PeerLink.Proofs.Histories
import PeerLink.Proofs.Updates
import Mathlib.Data.List.Induction

/-! # The life of a subscription

What happens to the subscriptions of a responder, and what each of them has seen.

* `Happening`: numbers are bound and released, values change, values are sent.
* `life`: the binding that a number has after all that has happened.
* `Kept`: how what was sent and what waits compare to the values there were.
* `Happening.Fair`: nothing is sent for a number that is not bound, and what a binding has been sent
  when it ends are values of its own.
-/

namespace PeerLink
set_option autoImplicit false

inductive Happening
  /-- A number is bound to a path where a value may stand. If it was bound before, that ends. -/
  | bound (sid : Nat) (path : String) (qos : Nat) (initial : Option ValueUpdate)
  | released (sids : List Nat)
  | cut
  | changed (path : String) (u : ValueUpdate)
  | sent (us : List SubscriptionUpdate)

def valuesFor (sid : Nat) (us : List SubscriptionUpdate) : List ValueUpdate :=
  (about sid us).map (·.update)

namespace Happening

def Binds (sid : Nat) : Happening → Prop
  | bound sid' _ _ _ => sid' = sid
  | released _ | cut | changed _ _ | sent _ => False

/-- Whether the binding that a number had is over. -/
def Ends (sid : Nat) : Happening → Prop
  | bound sid' _ _ _ => sid' = sid
  | released sids => sid ∈ sids
  | cut => True
  | changed _ _ | sent _ => False

theorem Binds.ends {sid : Nat} {h : Happening} (hbinds : h.Binds sid) : h.Ends sid := by
  cases h with
  | bound sid' path qos initial => exact hbinds
  | released | cut | changed | sent => exact absurd hbinds id

def changed? (path : String) : Happening → Option ValueUpdate
  | changed path' u => if path' = path then some u else none
  | bound _ _ _ _ | released _ | cut | sent _ => none

def batch? : Happening → Option (List SubscriptionUpdate)
  | sent us => some us
  | bound _ _ _ _ | released _ | cut | changed _ _ => none

def changes (path : String) (hs : List Happening) : List ValueUpdate := hs.filterMap (changed? path)

def batches (hs : List Happening) : List (List SubscriptionUpdate) := hs.filterMap batch?

/-- The values that were sent for a number. -/
def sentFor (sid : Nat) (hs : List Happening) : List ValueUpdate :=
  (batches hs).flatMap (valuesFor sid)

theorem batches_append (hs hs' : List Happening) :
    batches (hs ++ hs') = batches hs ++ batches hs' := List.filterMap_append

end Happening

open Happening

/-! ## Bindings -/

/-- A binding: the values that its path has had since, the first one included, and those that were
sent. -/
structure Life where
  path : String
  qos : Nat
  values : List ValueUpdate
  sent : List ValueUpdate := []

def Life.after (sid : Nat) (l : Option Life) : Happening → Option Life
  | .bound sid' path qos initial =>
    if sid' = sid then some { path, qos, values := initial.toList } else l
  | .released sids => if sid ∈ sids then none else l
  | .cut => none
  | .changed path u =>
    l.map fun l => if l.path = path then { l with values := l.values ++ [u] } else l
  | .sent us => l.map fun l => { l with sent := l.sent ++ valuesFor sid us }

/-- The binding that a number has. -/
def life (sid : Nat) (hs : List Happening) : Option Life := hs.foldl (Life.after sid) none

theorem life_snoc (sid : Nat) (hs : List Happening) (h : Happening) :
    life sid (hs ++ [h]) = Life.after sid (life sid hs) h := by
  rw [life, List.foldl_append]
  rfl

theorem Life.eq_self (l : Life) :
    l = { l with values := l.values ++ [], sent := l.sent ++ [] } := by
  rw [List.append_nil, List.append_nil]

theorem Life.after_of_not_ends {sid : Nat} {h : Happening} (hends : ¬ h.Ends sid) (l : Life) :
    Life.after sid (some l) h = some { l with
      values := l.values ++ (h.changed? l.path).toList
      sent := l.sent ++ sentFor sid [h] } := by
  cases h with
  | bound sid' path qos initial =>
    have hother : ¬ sid' = sid := hends
    rw [Life.after, if_neg hother]
    exact congrArg some l.eq_self
  | released sids =>
    have hother : ¬ sid ∈ sids := hends
    rw [Life.after, if_neg hother]
    exact congrArg some l.eq_self
  | cut => exact absurd trivial hends
  | changed path u =>
    have hsent : sentFor sid [.changed path u] = [] := rfl
    rw [hsent, Life.after, Option.map_some, changed?, List.append_nil]
    by_cases hp : l.path = path
    · rw [if_pos hp, if_pos hp.symm, Option.toList_some]
    · rw [if_neg hp, if_neg (Ne.symm hp), Option.toList_none, List.append_nil]
  | sent us => simp [Life.after, changed?, sentFor, batches, batch?]

/-- A binding that lives on has seen what happened since. -/
theorem Life.foldl_after {sid : Nat} : ∀ (hs : List Happening) (l : Life),
    (∀ h ∈ hs, ¬ h.Ends sid) → hs.foldl (Life.after sid) (some l) = some { l with
      values := l.values ++ changes l.path hs
      sent := l.sent ++ sentFor sid hs }
  | [], l, _ => by simp [changes, sentFor, batches]
  | h :: hs, l, hno => by
    obtain ⟨hfirst, hrest⟩ := List.forall_mem_cons.mp hno
    have hchanges : changes l.path (h :: hs) = (h.changed? l.path).toList ++ changes l.path hs := by
      rw [changes, List.filterMap_cons]
      cases h.changed? l.path <;> rfl
    have hsent : sentFor sid (h :: hs) = sentFor sid [h] ++ sentFor sid hs := by
      rw [sentFor, sentFor, sentFor, batches, batches, batches, ← List.flatMap_append,
        ← List.filterMap_append]
      rfl
    rw [List.foldl_cons, after_of_not_ends hfirst, foldl_after hs _ hrest, hchanges, hsent]
    simp only [List.append_assoc]

theorem life_of_bound {sid : Nat} {post : List Happening} (pre : List Happening) (path : String)
    (qos : Nat) (initial : Option ValueUpdate) (hno : ∀ h ∈ post, ¬ h.Ends sid) :
    life sid (pre ++ .bound sid path qos initial :: post) = some {
      path, qos
      values := initial.toList ++ changes path post
      sent := sentFor sid post } := by
  have hbound : Life.after sid (life sid pre) (.bound sid path qos initial) =
      some { path, qos, values := initial.toList } := if_pos rfl
  rw [life, List.foldl_append, List.foldl_cons]
  change post.foldl (Life.after sid) (Life.after sid (life sid pre) _) = _
  rw [hbound, Life.foldl_after post _ hno]
  rfl

theorem Life.foldl_after_none {sid : Nat} : ∀ hs : List Happening, (∀ h ∈ hs, ¬ h.Binds sid) →
    hs.foldl (Life.after sid) none = none
  | [], _ => rfl
  | h :: hs, hno => by
    obtain ⟨hfirst, hrest⟩ := List.forall_mem_cons.mp hno
    have hnone : Life.after sid none h = none := by
      cases h with
      | bound sid' path qos initial => exact if_neg hfirst
      | released sids => exact ite_self none
      | cut | changed | sent => rfl
    rw [List.foldl_cons, hnone]
    exact foldl_after_none hs hrest

theorem life_of_ended {sid : Nat} {pre post : List Happening} {h : Happening} (hends : h.Ends sid)
    (hbinds : ¬ h.Binds sid) (hno : ∀ h ∈ post, ¬ h.Binds sid) :
    life sid (pre ++ h :: post) = none := by
  have hnone : Life.after sid (life sid pre) h = none := by
    cases h with
    | bound sid' path qos initial => exact absurd hends hbinds
    | released sids => exact if_pos hends
    | cut => rfl
    | changed path u => exact absurd hends id
    | sent us => exact absurd hends id
  rw [life, List.foldl_append, List.foldl_cons]
  change post.foldl (Life.after sid) (Life.after sid (life sid pre) _) = _
  rw [hnone]
  exact Life.foldl_after_none post hno

/-- A number that has a binding was bound, and nothing has ended that since. -/
theorem exists_bound_of_life {sid : Nat} {hs : List Happening} {l : Life}
    (h : life sid hs = some l) : ∃ pre initial post,
      hs = pre ++ .bound sid l.path l.qos initial :: post ∧ ∀ h ∈ post, ¬ h.Ends sid := by
  induction hs using List.reverseRecOn generalizing l with
  | nil => cases h
  | append_singleton hs e ih =>
    rw [life_snoc] at h
    by_cases hends : e.Ends sid
    · -- Of what ends a binding only another beginning leaves one.
      cases e with
      | bound sid' path qos initial =>
        have hsid : sid' = sid := hends
        rw [Life.after, if_pos hsid] at h
        cases h
        exact ⟨hs, initial, [], by rw [hsid], fun h hh => absurd hh List.not_mem_nil⟩
      | released sids =>
        have hsid : sid ∈ sids := hends
        rw [Life.after, if_pos hsid] at h
        cases h
      | cut => cases h
      | changed path u => exact absurd hends id
      | sent us => exact absurd hends id
    · cases hl0 : life sid hs with
      | none =>
        have hnone : Life.after sid none e = none := Life.foldl_after_none [e] fun h hh hbinds =>
          hends (List.mem_singleton.mp hh ▸ hbinds.ends)
        rw [hl0, hnone] at h
        cases h
      | some l0 =>
        rw [hl0, Life.after_of_not_ends hends] at h
        cases h
        obtain ⟨pre, initial, post, rfl, hno⟩ := ih hl0
        refine ⟨pre, initial, post ++ [e], by simp, fun h hh => ?_⟩
        obtain hh | hh := List.mem_append.mp hh
        · exact hno h hh
        · exact List.mem_singleton.mp hh ▸ hends

/-! ## What a binding is owed -/

/-- What was sent and what waits, and the values there were. With quality 0 some values are left
out, but never the last one. -/
structure Kept (qos : Nat) (values sent waiting : List ValueUpdate) : Prop where
  all : qos ≠ 0 → sent ++ waiting = values
  some : qos = 0 → (sent ++ waiting).Sublist values ∧
    (sent ++ waiting).getLast? = values.getLast? ∧ waiting.length ≤ 1

/-- One more value waits; with quality 0 it takes the place of the others. -/
def pushValue (qos : Nat) (u : ValueUpdate) (us : List ValueUpdate) : List ValueUpdate :=
  if qos = 0 then [u] else us ++ [u]

namespace Kept
variable {qos : Nat} {values sent waiting : List ValueUpdate}

theorem start (qos : Nat) (initial : Option ValueUpdate) :
    Kept qos initial.toList [] initial.toList where
  all := fun _ => rfl
  some := fun _ => ⟨.refl _, rfl, by cases initial <;> simp⟩

theorem push (h : Kept qos values sent waiting) (u : ValueUpdate) :
    Kept qos (values ++ [u]) sent (pushValue qos u waiting) where
  all := by
    intro hq
    rw [pushValue, if_neg hq, ← List.append_assoc, h.all hq]
  some := by
    intro hq
    rw [pushValue, if_pos hq]
    refine ⟨?_, by simp, Nat.le_refl 1⟩
    have hsent : sent.Sublist values :=
      (List.sublist_append_left sent waiting).trans (h.some hq).1
    exact hsent.append (.refl [u])

theorem flush (h : Kept qos values sent waiting) : Kept qos values (sent ++ waiting) [] where
  all := by
    intro hq
    rw [List.append_nil]
    exact h.all hq
  some := by
    intro hq
    rw [List.append_nil]
    exact ⟨(h.some hq).1, (h.some hq).2.1, Nat.zero_le 1⟩

/-- What was sent are values of the binding in their order, and with another quality than 0 none of
them is left out in between. -/
theorem sent_of_values (h : Kept qos values sent waiting) :
    (qos ≠ 0 → sent <+: values) ∧ (qos = 0 → sent.Sublist values) :=
  ⟨fun hq => h.all hq ▸ List.prefix_append sent waiting,
    fun hq => (List.sublist_append_left sent waiting).trans (h.some hq).1⟩

end Kept

/-- What can be said of a happening by what happened before. -/
structure Happening.Fair (pre : List Happening) (h : Happening) : Prop where
  sent : ∀ us, h = .sent us → ∀ u ∈ us, (life u.sid pre).isSome = true
  ended : ∀ sid l, h.Ends sid → life sid pre = some l →
    (l.qos ≠ 0 → l.sent <+: l.values) ∧ (l.qos = 0 → l.sent.Sublist l.values)

/-- Nothing is sent for a number while it is not bound. -/
theorem sentFor_eq_nil {sid : Nat} {start hs : List Happening} (hfair : Each Fair (start ++ hs))
    (hlife : life sid start = none) (hno : ∀ h ∈ hs, ¬ h.Binds sid) : sentFor sid hs = [] := by
  refine List.flatMap_eq_nil_iff.mpr fun us hus => ?_
  obtain ⟨h, hmem, hbatch⟩ := List.mem_filterMap.mp hus
  have hsent : h = .sent us := by
    cases h with
    | sent us' => exact congrArg _ (Option.some.inj hbatch)
    | bound | released | cut | changed => cases hbatch
  obtain ⟨mid, post, rfl⟩ := List.append_of_mem hmem
  rw [valuesFor, List.map_eq_nil_iff]
  refine about_eq_nil.mpr fun u hu hsid => ?_
  have hsome := (hfair (start ++ mid) h post (by rw [List.append_assoc])).sent us hsent u hu
  have hnone : life u.sid (start ++ mid) = none := by
    rw [life, List.foldl_append]
    change mid.foldl _ (life u.sid start) = none
    rw [hsid, hlife]
    exact Life.foldl_after_none mid fun h hh => hno h (List.mem_append_left _ hh)
  rw [hnone] at hsome
  cases hsome

end PeerLink
