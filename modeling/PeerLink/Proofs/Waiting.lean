import PeerLink.Proofs.Happenings
import PeerLink.Proofs.RegistrySteps

/-! # What waits for one subscription

* `Registry.waiting`: the values that wait for a number.
* `Registry.Sole`: no two watches speak for one binding, so a change is heard once.
* `Registry.waiting_setValue`, `Registry.release_waiting`: what becomes of the values that wait when
  a value changes and when subscriptions end.
* `Registry.bind_free`, `Registry.bind_rebound`: the same when one begins, at a free number and at
  any number.
-/

namespace PeerLink
set_option autoImplicit false

theorem valuesFor_eq_nil {sid : Nat} {us : List SubscriptionUpdate} (h : ∀ u ∈ us, u.sid ≠ sid) :
    valuesFor sid us = [] := by
  rw [valuesFor, about_eq_nil.mpr h, List.map_nil]

def RegistryEntry.asked (e : RegistryEntry) : String × Nat := (e.path, e.qos)

namespace Registry
variable {r r' : Registry} {t : MemoryTree Binding}

def waiting (r : Registry) (sid : Nat) : List ValueUpdate := valuesFor sid r.queued

/-- No two watches speak for one binding. -/
def Sole (t : MemoryTree Binding) : Prop := (t.watches.map (·.listener)).Nodup

theorem Watching.waiting_none (h : r.Watching t) {sid : Nat} (he : r.entries.get? sid = none) :
    r.waiting sid = [] :=
  valuesFor_eq_nil fun u hu hsid => Table.get?_eq_none.mp he (hsid ▸ h.queued u hu)

/-! ## A change -/

/-- A value that is taken waits, alone if the quality is 0. -/
theorem waiting_record (hw : r.Watching t) {b : Binding} {e : RegistryEntry}
    (he : r.entries.get? b.sid = some e) (u : ValueUpdate) (sid : Nat) :
    (r.record b e u).2.waiting sid =
      if sid = b.sid then pushValue e.qos u (r.waiting sid) else r.waiting sid := by
  by_cases hsid : sid = b.sid
  · subst hsid
    rw [if_pos rfl, waiting, waiting, valuesFor, record, queue, pushValue]
    dsimp only
    by_cases hq : e.qos = 0
    · have hone := about_replaceQueued (u := ⟨b.sid, u⟩) (hw.single b.sid e he hq)
      rw [if_pos hq, if_pos hq]
      exact congrArg (List.map (·.update)) hone
    · rw [if_neg hq, if_neg hq, about_append, List.map_append]
      have hown : about b.sid [⟨b.sid, u⟩] = [⟨b.sid, u⟩] :=
        List.filter_cons_of_pos (decide_eq_true rfl)
      rw [hown]
      rfl
  · rw [if_neg hsid, waiting, waiting, valuesFor, (recorded he u).other sid hsid]
    rfl

theorem waiting_told {ns : List (Notice Binding)} {u : ValueUpdate} (ht : r.Told ns u r')
    {sid : Nat} (hno : ∀ e, r.entries.get? sid = some e → ∀ n ∈ ns, n.listener ≠ ⟨sid, e.token⟩) :
    r'.waiting sid = r.waiting sid := by
  rw [waiting, waiting, valuesFor, ht.other sid hno]
  rfl

/-- A binding that is told once takes the value once. -/
theorem waiting_onChanges {u : ValueUpdate} {sid : Nat} : ∀ (ns : List (Notice Binding))
    (r : Registry) (e : RegistryEntry), r.Watching t → (∀ n ∈ ns, n.update = u) →
    (ns.map (·.listener)).Nodup → r.entries.get? sid = some e →
    (∃ n ∈ ns, n.listener = ⟨sid, e.token⟩) →
    (r.onChanges ns).2.waiting sid = pushValue e.qos u (r.waiting sid)
  | [], _, _, _, _, _, _, ⟨n, hn, _⟩ => absurd hn List.not_mem_nil
  | n :: ns, r, e, hw, hu, hnodup, he, ⟨n', hn', hl⟩ => by
    obtain ⟨hnot, hrest⟩ := List.nodup_cons.mp hnodup
    have hns : ∀ n' ∈ ns, n'.update = u := fun n' hn' => hu n' (List.mem_cons_of_mem n hn')
    rw [onChanges, onChange]
    cases hcur : r.current? n.listener with
    | none =>
      refine waiting_onChanges ns r e hw hns hrest he ⟨n', ?_, hl⟩
      refine (List.mem_cons.mp hn').resolve_left fun hfirst => ?_
      have hsome : r.current? n.listener = some e :=
        current?_eq_some.mpr ⟨by rw [← hfirst, hl]; exact he, by rw [← hfirst, hl]⟩
      rw [hcur] at hsome
      cases hsome
    | some e' =>
      obtain ⟨he', hlistener⟩ := current?_eq_some.mp hcur
      have hr := recorded he' n.update
      have hw1 := hw.recorded he' hr
      have hwaiting := waiting_record hw he' n.update sid
      have hupdate : n.update = u := hu n List.mem_cons_self
      dsimp only
      generalize r.record n.listener e' n.update = p at hr hw1 hwaiting ⊢
      obtain ⟨es, r1⟩ := p
      dsimp only at hr hw1 hwaiting ⊢
      by_cases hsid : sid = n.listener.sid
      · have hee : e = e' := by
          rw [hsid, he'] at he
          exact (Option.some.inj he).symm
        subst hee
        obtain ⟨-, -, htold⟩ := onChanges_spec ns r1 hw1 hns
        -- Nobody else speaks for this binding.
        rw [waiting_told htold fun e1 he1 n1 hn1 hl1 => hnot ?_, hwaiting, if_pos hsid, hupdate]
        rw [hr.get, if_pos hsid] at he1
        cases he1
        have hsame : n1.listener = n.listener := by
          rw [hl1, hsid]
          exact hlistener.symm
        exact List.mem_map.mpr ⟨n1, hn1, hsame⟩
      · have he1 : r1.entries.get? sid = some e := by rw [hr.get, if_neg hsid, he]
        rw [waiting_onChanges ns r1 e hw1 hns hrest he1 ⟨n', ?_, hl⟩, hwaiting, if_neg hsid]
        refine (List.mem_cons.mp hn').resolve_left fun hfirst => hsid ?_
        rw [← hfirst, hl]

/-- A change of a value waits for those who watch its path. -/
theorem waiting_setValue (hw : r.Watching t) (hs : Sole t) (now : Timestamp) (path : String)
    (v : Json.Value) (sid : Nat) :
    (r.onChanges (t.setValue now path v).1).2.waiting sid =
      match r.entries.get? sid with
      | none => r.waiting sid
      | some e =>
        if e.path = path then pushValue e.qos { value := v, time := now } (r.waiting sid)
        else r.waiting sid := by
  have hu : ∀ n ∈ (t.setValue now path v).1, n.update = { value := v, time := now } := by
    intro n hn
    obtain ⟨w, -, rfl⟩ := List.mem_map.mp hn
    rfl
  have hlisteners : (t.setValue now path v).1.map (·.listener) =
      (t.watchesOf path).map (·.listener) := by
    simp only [MemoryTree.setValue, List.map_map]
    rfl
  have hnodup : ((t.setValue now path v).1.map (·.listener)).Nodup := by
    rw [hlisteners]
    exact hs.sublist (List.filter_sublist.map _)
  obtain ⟨-, -, htold⟩ := onChanges_spec _ r hw hu
  cases he : r.entries.get? sid with
  | none => exact waiting_told htold fun e he' => by rw [he] at he'; cases he'
  | some e =>
    dsimp only
    by_cases hp : e.path = path
    · rw [if_pos hp]
      obtain ⟨w, hmem, -, hpath, hlistener⟩ := hw.watched sid e he
      have hwatch : w ∈ t.watchesOf path :=
        List.mem_filter.mpr ⟨hmem, decide_eq_true (hpath.trans hp)⟩
      exact waiting_onChanges _ r e hw hu hnodup he ⟨_, List.mem_map_of_mem hwatch, hlistener⟩
    · rw [if_neg hp]
      refine waiting_told htold fun e' he' n hn hl => hp ?_
      rw [he] at he'
      cases he'
      obtain ⟨w, hwatch, rfl⟩ := List.mem_map.mp hn
      obtain ⟨hmem, hpath⟩ := List.mem_filter.mp hwatch
      have hlistener : w.listener = ⟨sid, e.token⟩ := hl
      have hfaithful := hw.faithful w hmem e (by rw [hlistener]; exact he) (by rw [hlistener])
      rw [← hfaithful]
      exact of_decide_eq_true hpath

/-! ## Ends -/

theorem Sole.sublist {t' : MemoryTree Binding} (h : Sole t) (hsub : t'.watches.Sublist t.watches) :
    Sole t' := List.Nodup.sublist (hsub.map _) h

theorem releaseOne_watches (r : Registry) (t : MemoryTree Binding) (sid : Nat) :
    (r.releaseOne t sid).2.watches.Sublist t.watches := by
  unfold releaseOne
  split
  · exact .refl _
  · exact (unwatch_spec t _).2.2

theorem releaseEach_watches : ∀ (sids : List Nat) (r : Registry) (t : MemoryTree Binding),
    (r.releaseEach t sids).2.watches.Sublist t.watches
  | [], _, _ => .refl _
  | sid :: sids, r, t =>
    (releaseEach_watches sids _ _).trans (releaseOne_watches r t sid)

theorem Sole.release (h : Sole t) (r : Registry) (sids : List Nat) :
    Sole (r.release t sids).2 :=
  h.sublist (releaseEach_watches sids (r.withoutQueued sids) t)

theorem Sole.closeAll (h : Sole t) (r : Registry) : Sole (r.closeAll t).2 :=
  h.sublist (foldl_unwatch r.entries.values t).2.2

theorem release_waiting (hw : r.Watching t) (sids : List Nat) (sid : Nat) :
    (r.release t sids).1.waiting sid = if sid ∈ sids then [] else r.waiting sid := by
  obtain ⟨-, hr⟩ := release_spec hw sids
  rw [waiting, hr.queued]
  split
  · rename_i hmem
    exact valuesFor_eq_nil fun u hu hsid => (mem_withoutQueued.mp hu).2 (hsid ▸ hmem)
  · rename_i hmem
    rw [valuesFor, about_withoutQueued hmem]
    rfl

/-! ## Beginnings -/

/-- A number is bound anew, whether it was bound before or not. -/
structure Rebound (r : Registry) (t : MemoryTree Binding) (p : SubscribePath) (r' : Registry)
    (t' : MemoryTree Binding) : Prop where
  watching : r'.Watching t'
  sole : Sole t'
  asked : ∀ sid, (r'.entries.get? sid).map (·.asked) =
    if sid = p.sid then some (p.path, p.qos) else (r.entries.get? sid).map (·.asked)
  waiting : ∀ sid, r'.waiting sid =
    if sid = p.sid then (t.readValue p.path).toList else r.waiting sid
  outlet : r'.outlet = r.outlet

theorem Sole.withWatch (h : Sole t) (hw : r.Watching t) (p : SubscribePath) :
    Sole (r.withWatch t p) := by
  rw [Sole, watches_withWatch, List.map_append]
  refine List.nodup_append.mpr ⟨h, List.nodup_singleton _, fun b hb b' hb' hsame => ?_⟩
  obtain ⟨w, hmem, rfl⟩ := List.mem_map.mp hb
  have hle := hw.listeners w hmem
  rw [hsame, List.mem_singleton.mp hb'] at hle
  exact absurd hle (Nat.not_succ_le_self _)

theorem bind_free (hw : r.Watching t) (hs : Sole t) {p : SubscribePath} (now : Timestamp)
    (hvalid : Path.valid p.path = true) (hout : r.outlet.isSome)
    (hfree : r.entries.get? p.sid = none) :
    r.Rebound t p (r.bind now t p).2.1 (r.bind now t p).2.2 ∧
      ∀ e ∈ (r.bind now t p).1, e = .schedule .flush := by
  have hnew : p.sid ∉ r.entries.keys := Table.get?_eq_none.mp hfree
  obtain ⟨hschedules, hw', -⟩ := bind_spec hw now hvalid hout hnew
  have hw1 := hw.withEntry hnew
  have hentry : (r.withEntry t p).entries.get? p.sid = some (r.newEntry t p) := by
    rw [get?_withEntry, if_pos rfl]
  have hempty : r.waiting p.sid = [] := hw.waiting_none hfree
  refine ⟨⟨hw', ?_, fun sid => ?_, fun sid => ?_, hschedules.outlet⟩, hschedules.only⟩
  · rw [bind_eq now hvalid hout hnew]
    cases t.readValue p.path <;> exact hs.withWatch hw p
  · rw [bind_eq now hvalid hout hnew]
    cases t.readValue p.path with
    | none =>
      dsimp only
      rw [get?_withEntry]
      split <;> rfl
    | some u =>
      dsimp only
      rw [(recorded (b := ⟨p.sid, r.nextToken + 1⟩) hentry u).get, get?_withEntry]
      split <;> rfl
  · rw [bind_eq now hvalid hout hnew]
    cases t.readValue p.path with
    | none =>
      dsimp only
      split
      · rename_i hsid
        rw [hsid]
        exact hempty
      · rfl
    | some u =>
      dsimp only
      rw [waiting_record (b := ⟨p.sid, r.nextToken + 1⟩) hw1 hentry u sid]
      split
      · rename_i hsid
        have hnone : (r.withEntry t p).waiting sid = [] := hsid ▸ hempty
        rw [hnone, pushValue]
        exact ite_self [u]
      · rfl

/-- To bind a number that is bound is to release it first. -/
theorem bind_taken {p : SubscribePath} (now : Timestamp) {e : RegistryEntry}
    (he : r.entries.get? p.sid = some e) (hvalid : Path.valid p.path = true)
    (hout : r.outlet.isSome) :
    r.bind now t p = (r.release t [p.sid]).1.bind now (r.release t [p.sid]).2 p := by
  have hrelease : r.release t [p.sid] =
      ({ r with
        queued := r.queued.filter fun u => !List.contains [p.sid] u.sid
        entries := r.entries.erase p.sid }, unwatch t e) := by
    simp [release, releaseOne, he]
  have hguard : (!Path.valid p.path || r.outlet.isNone) = false := by
    simp [hvalid, Option.isNone_eq_false_iff.mpr hout]
  have hqueued : (r.queued.filter fun u => decide (u.sid ≠ p.sid)) =
      r.queued.filter fun u => !List.contains [p.sid] u.sid := by
    refine List.filter_congr fun u _ => ?_
    simp
  have hinsert : ∀ a : RegistryEntry,
      r.entries.insert p.sid a = (r.entries.erase p.sid).insert p.sid a := by
    intro a
    simp [Table.insert, Table.erase]
  have hnone : (r.entries.erase p.sid).get? p.sid = none := by
    rw [Table.get?_erase, if_pos rfl]
  have hopen : r.openEntry t p =
      (r.release t [p.sid]).1.openEntry (r.release t [p.sid]).2 p := by
    rw [hrelease]
    simp only [openEntry, he, hnone, Option.isSome_some, Option.isSome_none, if_true, hqueued,
      hinsert, Bool.false_eq_true, if_false]
  rw [bind, bind, if_neg (by simp [hguard]), hopen, hrelease, if_neg (by simp [hguard])]

theorem bind_rebound (hw : r.Watching t) (hs : Sole t) {p : SubscribePath} (now : Timestamp)
    (hvalid : Path.valid p.path = true) (hout : r.outlet.isSome) :
    r.Rebound t p (r.bind now t p).2.1 (r.bind now t p).2.2 ∧
      ∀ e ∈ (r.bind now t p).1, e = .schedule .flush := by
  cases he : r.entries.get? p.sid with
  | none => exact bind_free hw hs now hvalid hout he
  | some e =>
    obtain ⟨hw1, hr⟩ := release_spec hw [p.sid]
    have hfree : (r.release t [p.sid]).1.entries.get? p.sid = none := by
      rw [hr.get, if_pos List.mem_cons_self]
    have hout1 : (r.release t [p.sid]).1.outlet.isSome := by
      rw [hr.outlet]
      exact hout
    obtain ⟨h, heffects⟩ := bind_free hw1 (hs.release r [p.sid]) now hvalid hout1 hfree
    rw [bind_taken now he hvalid hout]
    refine ⟨⟨h.watching, h.sole, fun sid => ?_, fun sid => ?_, h.outlet.trans hr.outlet⟩, heffects⟩
    · rw [h.asked]
      split
      · rfl
      · rename_i hne
        rw [hr.get, if_neg (by simpa using hne)]
        rfl
    · rw [h.waiting, MemoryTree.readValue, hr.values]
      split
      · rfl
      · rename_i hne
        rw [release_waiting hw, if_neg (by simpa using hne)]

end Registry
end PeerLink
