import PeerLink.Tree.Memory
import PeerLink.Proofs.Tables
import PeerLink.Proofs.Updates

/-! # Steps of a registry over a tree in memory

* `Registry.Schedules`: what steps do to the flags and the tasks.
* `Registry.Watching`: each subscription has its watch, and no watch speaks for another.
* `Registry.Recorded`, `Registry.Told`: a value is taken; a change is told to those who watch.
* `Registry.Bound`, `Registry.Released`: subscriptions begin and end.
-/

namespace PeerLink
set_option autoImplicit false

/-- What an entry is but for its last value. -/
def RegistryEntry.bare (e : RegistryEntry) : RegistryEntry := { e with last := none }

namespace Registry

/-! ## Flags -/

/-- Steps that schedule a task to send what waits, unless one is on its way. -/
structure Schedules (r : Registry) (es : Effects) (r' : Registry) : Prop where
  outlet : r'.outlet = r.outlet
  ops : r'.ops = r.ops
  draining : r'.draining = r.draining
  only : ∀ e ∈ es, e = .schedule .flush
  flush : r'.flushScheduled = true → r.flushScheduled = true ∨ .schedule .flush ∈ es
  keeps : r.flushScheduled = true → r'.flushScheduled = true
  queued : r'.queued ≠ [] → r.queued ≠ [] ∨ r'.flushScheduled = true

variable {r r' r'' : Registry} {es es' : Effects}

theorem Schedules.refl (r : Registry) : r.Schedules [] r :=
  ⟨rfl, rfl, rfl, fun _ he => absurd he List.not_mem_nil, .inl, id, .inl⟩

theorem Schedules.trans (h : r.Schedules es r') (h' : r'.Schedules es' r'') :
    r.Schedules (es ++ es') r'' where
  outlet := h'.outlet.trans h.outlet
  ops := h'.ops.trans h.ops
  draining := h'.draining.trans h.draining
  only := by
    intro e he
    exact (List.mem_append.mp he).elim (h.only e) (h'.only e)
  flush := by
    intro hf
    rcases h'.flush hf with hf | hf
    · exact (h.flush hf).imp id (List.mem_append_left _)
    · exact .inr (List.mem_append_right _ hf)
  keeps := fun hf => h'.keeps (h.keeps hf)
  queued := by
    intro hq
    rcases h'.queued hq with hq | hq
    · exact (h.queued hq).imp id h'.keeps
    · exact .inr hq

/-! ## Watches -/

variable {t : MemoryTree Binding}

/-- Values wait for subscriptions that are bound, and each of these has a watch of its own. -/
structure Watching (r : Registry) (t : MemoryTree Binding) : Prop where
  distinct : r.entries.Distinct
  queued : ∀ u ∈ r.queued, u.sid ∈ r.entries.keys
  single : ∀ sid e, r.entries.get? sid = some e → e.qos = 0 → (about sid r.queued).length ≤ 1
  tokens : ∀ sid e, r.entries.get? sid = some e → e.token ≤ r.nextToken
  watched : ∀ sid e, r.entries.get? sid = some e →
    ∃ w ∈ t.watches, e.watch = some w.id ∧ w.path = e.path ∧ w.listener = ⟨sid, e.token⟩
  faithful : ∀ w ∈ t.watches, ∀ e, r.entries.get? w.listener.sid = some e →
    e.token = w.listener.token → w.path = e.path
  listeners : ∀ w ∈ t.watches, w.listener.token ≤ r.nextToken
  ids : (t.watches.map (·.id)).Nodup
  next : ∀ w ∈ t.watches, w.id < t.nextWatch

/-- Values of a tree do not matter to its watches. -/
theorem Watching.congr (h : r.Watching t) {t' : MemoryTree Binding}
    (hwatches : t'.watches = t.watches) (hnext : t'.nextWatch = t.nextWatch) : r.Watching t' where
  distinct := h.distinct
  queued := h.queued
  single := h.single
  tokens := h.tokens
  watched := hwatches ▸ h.watched
  faithful := hwatches ▸ h.faithful
  listeners := hwatches ▸ h.listeners
  ids := hwatches ▸ h.ids
  next := by
    rw [hwatches, hnext]
    exact h.next

/-! ## A value is taken -/

/-- The registry when an entry has a new last value that waits to be sent. -/
structure Recorded (r : Registry) (sid : Nat) (e : RegistryEntry) (u : ValueUpdate)
    (r' : Registry) : Prop where
  get : ∀ sid', r'.entries.get? sid' =
    if sid' = sid then some { e with last := some u } else r.entries.get? sid'
  keys : r'.entries.keys = r.entries.keys
  nextToken : r'.nextToken = r.nextToken
  other : ∀ sid', sid' ≠ sid → about sid' r'.queued = about sid' r.queued
  newest : (e.qos = 0 → (about sid r.queued).length ≤ 1) →
    ∃ pre, about sid r'.queued = pre ++ [⟨sid, u⟩] ∧ (e.qos = 0 → pre = [])
  mem : ∀ v ∈ r'.queued, v = ⟨sid, u⟩ ∨ v ∈ r.queued

theorem record_schedules (b : Binding) (e : RegistryEntry) (u : ValueUpdate) :
    r.Schedules (r.record b e u).1 (r.record b e u).2 where
  outlet := rfl
  ops := rfl
  draining := rfl
  only := by
    intro e he
    simp only [record, queue] at he
    split at he
    · cases he
    · exact List.mem_singleton.mp he
  flush := by
    intro _
    cases hf : r.flushScheduled with
    | true => exact .inl rfl
    | false =>
      right
      simp [record, queue, hf]
  keeps := fun _ => rfl
  queued := fun _ => .inr rfl

theorem recorded {b : Binding} {e : RegistryEntry} (h : r.entries.get? b.sid = some e)
    (u : ValueUpdate) : r.Recorded b.sid e u (r.record b e u).2 where
  get := by
    intro sid'
    simp only [record, queue, Table.get?_modify]
    split
    · rename_i he
      rw [he, h]
      rfl
    · rfl
  keys := Table.keys_modify _ _ _
  nextToken := rfl
  other := by
    intro sid' hne
    simp only [record, queue]
    split
    · exact about_replaceQueued_other (u := ⟨b.sid, u⟩) (Ne.symm hne) r.queued
    · have hnil : about sid' [⟨b.sid, u⟩] = [] := about_cons_other (Ne.symm hne) []
      rw [about_append, hnil, List.append_nil]
  newest := by
    intro hsingle
    simp only [record, queue]
    by_cases hq : e.qos = 0
    · rw [if_pos hq]
      exact ⟨[], about_replaceQueued (u := ⟨b.sid, u⟩) (hsingle hq), fun _ => rfl⟩
    · rw [if_neg hq, about_append]
      refine ⟨about b.sid r.queued, ?_, fun h => absurd h hq⟩
      congr 1
      exact List.filter_cons_of_pos (decide_eq_true rfl)
  mem := by
    intro v hv
    simp only [record, queue] at hv
    split at hv
    · exact mem_replaceQueued hv
    · rcases List.mem_append.mp hv with hv | hv
      · exact .inr hv
      · exact .inl (List.mem_singleton.mp hv)

theorem Recorded.entry {sid : Nat} {e : RegistryEntry} {u : ValueUpdate}
    (he : r.entries.get? sid = some e) (hr : r.Recorded sid e u r') {sid' : Nat}
    {e' : RegistryEntry} (he' : r'.entries.get? sid' = some e') :
    ∃ e0, r.entries.get? sid' = some e0 ∧ e'.bare = e0.bare := by
  rw [hr.get] at he'
  split at he'
  · rename_i hs
    rw [← Option.some.inj he', hs]
    exact ⟨e, he, rfl⟩
  · exact ⟨e', he', rfl⟩

theorem Watching.recorded (h : r.Watching t) {sid : Nat} {e : RegistryEntry} {u : ValueUpdate}
    (he : r.entries.get? sid = some e) (hr : r.Recorded sid e u r') : r'.Watching t where
  distinct := by
    rw [Table.Distinct, hr.keys]
    exact h.distinct
  queued := by
    intro v hv
    rw [hr.keys]
    rcases hr.mem v hv with rfl | hv
    · exact Table.mem_keys.mpr (by simp [Table.contains, he])
    · exact h.queued v hv
  single := by
    intro sid' e' he' hq
    obtain ⟨e0, he0, hbare⟩ := hr.entry he he'
    have hqos : e'.qos = e0.qos := (congrArg RegistryEntry.qos hbare :)
    by_cases hs : sid' = sid
    · subst hs
      rw [he] at he0
      cases he0
      obtain ⟨pre, hpre, hnil⟩ := hr.newest fun hq => h.single sid' e he hq
      rw [hpre, hnil (hqos ▸ hq)]
      exact Nat.le_refl 1
    · rw [hr.other sid' hs]
      exact h.single sid' e0 he0 (hqos ▸ hq)
  tokens := by
    intro sid' e' he'
    obtain ⟨e0, he0, hbare⟩ := hr.entry he he'
    rw [hr.nextToken, show e'.token = e0.token from (congrArg RegistryEntry.token hbare :)]
    exact h.tokens sid' e0 he0
  watched := by
    intro sid' e' he'
    obtain ⟨e0, he0, hbare⟩ := hr.entry he he'
    have hpath : e'.path = e0.path := (congrArg RegistryEntry.path hbare :)
    have htoken : e'.token = e0.token := (congrArg RegistryEntry.token hbare :)
    have hwatch : e'.watch = e0.watch := (congrArg RegistryEntry.watch hbare :)
    rw [hpath, htoken, hwatch]
    exact h.watched sid' e0 he0
  faithful := by
    intro w hw e' he' ht
    obtain ⟨e0, he0, hbare⟩ := hr.entry he he'
    have htoken : e'.token = e0.token := (congrArg RegistryEntry.token hbare :)
    rw [show e'.path = e0.path from (congrArg RegistryEntry.path hbare :)]
    exact h.faithful w hw e0 he0 (htoken ▸ ht)
  listeners := by
    rw [hr.nextToken]
    exact h.listeners
  ids := h.ids
  next := h.next

/-! ## A change is told -/

/-- The registry after a change that watches have seen. -/
structure Told (r : Registry) (ns : List (Notice Binding)) (u : ValueUpdate) (r' : Registry) :
    Prop where
  keys : r'.entries.keys = r.entries.keys
  nextToken : r'.nextToken = r.nextToken
  bare : ∀ sid, (r'.entries.get? sid).map (·.bare) = (r.entries.get? sid).map (·.bare)
  newest : ∀ sid e, r.entries.get? sid = some e → (∃ n ∈ ns, n.listener = ⟨sid, e.token⟩) →
    ∃ pre, about sid r'.queued = pre ++ [⟨sid, u⟩]
  other : ∀ sid, (∀ e, r.entries.get? sid = some e → ∀ n ∈ ns, n.listener ≠ ⟨sid, e.token⟩) →
    about sid r'.queued = about sid r.queued
  mem : ∀ v ∈ r'.queued, v.update = u ∨ v ∈ r.queued

theorem current?_eq_some {b : Binding} {e : RegistryEntry} :
    r.current? b = some e ↔ r.entries.get? b.sid = some e ∧ b = ⟨b.sid, e.token⟩ := by
  obtain ⟨sid, token⟩ := b
  simp only [current?, Option.filter_eq_some_iff, decide_eq_true_eq, Binding.mk.injEq, true_and]
  exact and_congr_right fun _ => eq_comm

theorem Told.skip {n : Notice Binding} {ns : List (Notice Binding)} {u : ValueUpdate}
    (ht : r.Told ns u r') (hcur : r.current? n.listener = none) : r.Told (n :: ns) u r' := by
  have hnot : ∀ sid e, r.entries.get? sid = some e → n.listener ≠ ⟨sid, e.token⟩ := by
    intro sid e he hn
    have hsome : r.current? n.listener = some e :=
      current?_eq_some.mpr ⟨by rw [hn]; exact he, by rw [hn]⟩
    rw [hcur] at hsome
    cases hsome
  refine ⟨ht.keys, ht.nextToken, ht.bare, ?_, ?_, ht.mem⟩
  · rintro sid e he ⟨n', hn', hl⟩
    rcases List.mem_cons.mp hn' with rfl | hn'
    · exact absurd hl (hnot sid e he)
    · exact ht.newest sid e he ⟨n', hn', hl⟩
  · intro sid hno
    exact ht.other sid fun e he n' hn' => hno e he n' (List.mem_cons_of_mem n hn')

/-- An entry takes the change, and then the others are told. -/
theorem Recorded.told {n : Notice Binding} {ns : List (Notice Binding)} {u : ValueUpdate}
    {e : RegistryEntry} {r1 : Registry} (hw : r.Watching t)
    (he : r.entries.get? n.listener.sid = some e)
    (hlistener : n.listener = ⟨n.listener.sid, e.token⟩)
    (hr : r.Recorded n.listener.sid e u r1) (ht : r1.Told ns u r') : r.Told (n :: ns) u r' := by
  -- The entry that was changed is still the same binding.
  have hentry : ∀ sid e0, r.entries.get? sid = some e0 →
      ∃ e1, r1.entries.get? sid = some e1 ∧ e1.token = e0.token := by
    intro sid e0 he0
    rw [hr.get]
    split
    · rename_i hsid
      rw [hsid, he] at he0
      cases he0
      exact ⟨_, rfl, rfl⟩
    · exact ⟨e0, he0, rfl⟩
  refine ⟨ht.keys.trans hr.keys, ht.nextToken.trans hr.nextToken, ?bare, ?newest, ?other, ?mem⟩
  case bare =>
    intro sid
    rw [ht.bare, hr.get]
    split
    · rename_i hsid
      rw [hsid, he]
      rfl
    · rfl
  case newest =>
    rintro sid e0 he0 ⟨n', hn', hl⟩
    obtain ⟨e1, he1, htoken⟩ := hentry sid e0 he0
    -- A later notice to the same entry overrides this one, so the last of them decides.
    by_cases hlater : ∃ n' ∈ ns, n'.listener = ⟨sid, e1.token⟩
    · exact ht.newest sid e1 he1 hlater
    · have hfirst : n.listener = ⟨sid, e0.token⟩ := by
        rcases List.mem_cons.mp hn' with rfl | hn'
        · exact hl
        · exact absurd ⟨n', hn', htoken ▸ hl⟩ hlater
      have hsid : n.listener.sid = sid := by rw [hfirst]
      rw [ht.other sid fun e he n' hn' hl' => hlater ⟨n', hn', ?_⟩]
      · rw [← hsid]
        obtain ⟨pre, hpre, -⟩ := hr.newest fun hq => hw.single _ e he hq
        exact ⟨pre, hpre⟩
      · rw [he1] at he
        cases he
        exact hl'
  case other =>
    intro sid hno
    have hne : sid ≠ n.listener.sid := by
      rintro rfl
      exact hno e he n List.mem_cons_self hlistener
    rw [ht.other sid ?_, hr.other sid hne]
    intro e1 he1 n' hn'
    rw [hr.get, if_neg hne] at he1
    exact hno e1 he1 n' (List.mem_cons_of_mem n hn')
  case mem =>
    intro v hv
    rcases ht.mem v hv with hv | hv
    · exact .inl hv
    · rcases hr.mem v hv with rfl | hv
      · exact .inl rfl
      · exact .inr hv

/-- Every watch that the change concerns is heard, and no other. -/
theorem onChanges_spec {u : ValueUpdate} : ∀ (ns : List (Notice Binding)) (r : Registry),
    r.Watching t → (∀ n ∈ ns, n.update = u) →
    r.Schedules (r.onChanges ns).1 (r.onChanges ns).2 ∧ (r.onChanges ns).2.Watching t ∧
      r.Told ns u (r.onChanges ns).2
  | [], r, hw, _ =>
    ⟨.refl r, hw, rfl, rfl, fun _ => rfl, by simp, fun _ _ => rfl, fun _ hv => .inr hv⟩
  | n :: ns, r, hw, hu => by
    have hns : ∀ n' ∈ ns, n'.update = u := fun n' hn' => hu n' (List.mem_cons_of_mem n hn')
    rw [onChanges]
    unfold onChange
    cases hcur : r.current? n.listener with
    | none =>
      obtain ⟨hs, hw', ht⟩ := onChanges_spec ns r hw hns
      exact ⟨hs, hw', ht.skip hcur⟩
    | some e =>
      obtain ⟨he, hlistener⟩ := current?_eq_some.mp hcur
      have hupdate : n.update = u := hu n List.mem_cons_self
      have hr := recorded he n.update
      have hr1 := record_schedules (r := r) n.listener e n.update
      simp only
      generalize r.record n.listener e n.update = p at hr hr1 ⊢
      obtain ⟨es, r1⟩ := p
      simp only at hr hr1 ⊢
      rw [hupdate] at hr
      obtain ⟨hs, hw', ht⟩ := onChanges_spec ns r1 (hw.recorded he hr) hns
      exact ⟨hr1.trans hs, hw', hr.told hw he hlistener ht⟩

theorem Told.entry {ns : List (Notice Binding)} {u : ValueUpdate} (ht : r.Told ns u r')
    {sid : Nat} {e' : RegistryEntry} (he' : r'.entries.get? sid = some e') :
    ∃ e, r.entries.get? sid = some e ∧ e'.bare = e.bare := by
  have hbare := ht.bare sid
  rw [he', Option.map_some] at hbare
  obtain ⟨e, he, hb⟩ := Option.map_eq_some_iff.mp hbare.symm
  exact ⟨e, he, hb.symm⟩

theorem Told.no_entry {ns : List (Notice Binding)} {u : ValueUpdate} (ht : r.Told ns u r')
    {sid : Nat} (hr : r'.entries.get? sid = none) : r.entries.get? sid = none := by
  have hbare := ht.bare sid
  rwa [hr, Option.map_none, eq_comm, Option.map_eq_none_iff] at hbare

/-! ## A subscription begins -/

def newEntry (r : Registry) (t : MemoryTree Binding) (p : SubscribePath) : RegistryEntry :=
  { path := p.path, qos := p.qos, token := r.nextToken + 1, watch := some t.nextWatch }

def withEntry (r : Registry) (t : MemoryTree Binding) (p : SubscribePath) : Registry :=
  { r with
    nextToken := r.nextToken + 1
    entries :=
      (r.entries.insert p.sid { path := p.path, qos := p.qos, token := r.nextToken + 1 }).modify
        p.sid fun e => { e with watch := some t.nextWatch } }

def withWatch (r : Registry) (t : MemoryTree Binding) (p : SubscribePath) : MemoryTree Binding :=
  (t.watch p.path ⟨p.sid, r.nextToken + 1⟩).2

theorem get?_withEntry (r : Registry) (t : MemoryTree Binding) (p : SubscribePath) (sid : Nat) :
    (r.withEntry t p).entries.get? sid =
      if sid = p.sid then some (r.newEntry t p) else r.entries.get? sid := by
  simp only [withEntry, Table.get?_modify, Table.get?_insert]
  split <;> rfl

theorem keys_withEntry {r : Registry} {p : SubscribePath} (t : MemoryTree Binding)
    (hnew : p.sid ∉ r.entries.keys) :
    (r.withEntry t p).entries.keys = r.entries.keys ++ [p.sid] := by
  simp only [withEntry, Table.keys_modify, Table.keys_insert]
  congr 1
  exact List.filter_eq_self.mpr fun k hk => by
    simpa using fun he : k = p.sid => hnew (he ▸ hk)

/-- A new binding of a number that is free. -/
theorem bind_eq {p : SubscribePath} (now : Timestamp) (hvalid : Path.valid p.path = true)
    (hout : r.outlet.isSome) (hnew : p.sid ∉ r.entries.keys) :
    r.bind now t p =
      match t.readValue p.path with
      | none => ([], r.withEntry t p, r.withWatch t p)
      | some u =>
        (((r.withEntry t p).record ⟨p.sid, r.nextToken + 1⟩ (r.newEntry t p) u).1,
          ((r.withEntry t p).record ⟨p.sid, r.nextToken + 1⟩ (r.newEntry t p) u).2,
          r.withWatch t p) := by
  have hnone : r.entries.get? p.sid = none := Table.get?_eq_none.mpr hnew
  have hguard : (!Path.valid p.path || r.outlet.isNone) = false := by
    simp [hvalid, Option.isNone_eq_false_iff.mpr hout]
  have hopen : r.openEntry t p = (⟨p.sid, r.nextToken + 1⟩,
      { r with
        nextToken := r.nextToken + 1
        entries := r.entries.insert p.sid
          { path := p.path, qos := p.qos, token := r.nextToken + 1 } }, t) := by
    simp [openEntry, hnone]
  have hcur : ({ r with
      nextToken := r.nextToken + 1
      entries := r.entries.insert p.sid
        { path := p.path, qos := p.qos, token := r.nextToken + 1 } } : Registry).current?
          ⟨p.sid, r.nextToken + 1⟩ =
      some { path := p.path, qos := p.qos, token := r.nextToken + 1 } :=
    current?_eq_some.mpr ⟨by rw [Table.get?_insert, if_pos rfl], rfl⟩
  have hinitial : initialValue (r.withWatch t p) p.path = t.readValue p.path := rfl
  have hwatch : ValueTree.watch now t p.path (⟨p.sid, r.nextToken + 1⟩ : Binding) =
      (.ok t.nextWatch, [], r.withWatch t p) := rfl
  rw [bind, if_neg (by simp [hguard])]
  simp only [hopen, hwatch, onChanges, attach, hcur, hinitial]
  cases t.readValue p.path with
  | none => rfl
  | some u => rfl

theorem watches_withWatch (r : Registry) (t : MemoryTree Binding) (p : SubscribePath) :
    (r.withWatch t p).watches =
      t.watches ++ [⟨t.nextWatch, p.path, ⟨p.sid, r.nextToken + 1⟩⟩] := rfl

theorem Watching.withEntry (h : r.Watching t) {p : SubscribePath} (hnew : p.sid ∉ r.entries.keys) :
    (r.withEntry t p).Watching (r.withWatch t p) where
  distinct := (h.distinct.insert _ _).modify _ _
  queued := by
    intro u hu
    rw [keys_withEntry t hnew]
    exact List.mem_append_left _ (h.queued u hu)
  single := by
    intro sid e he hq
    have hnone : about p.sid r.queued = [] :=
      about_eq_nil.mpr fun u hu he => hnew (he ▸ h.queued u hu)
    rw [get?_withEntry] at he
    split at he
    · rename_i hs
      rw [hs]
      exact Nat.le_trans (Nat.le_of_eq (congrArg List.length hnone)) (Nat.zero_le 1)
    · exact h.single sid e he hq
  tokens := by
    intro sid e he
    rw [get?_withEntry] at he
    split at he
    · rw [← Option.some.inj he]
      exact Nat.le_refl _
    · exact Nat.le_succ_of_le (h.tokens sid e he)
  watched := by
    intro sid e he
    rw [get?_withEntry] at he
    rw [watches_withWatch]
    split at he
    · rename_i hs
      rw [← Option.some.inj he, hs]
      exact ⟨_, List.mem_append_right _ List.mem_cons_self, rfl, rfl, rfl⟩
    · obtain ⟨w, hmem, hw⟩ := h.watched sid e he
      exact ⟨w, List.mem_append_left _ hmem, hw⟩
  faithful := by
    intro w hmem e he htoken
    rw [get?_withEntry] at he
    rw [watches_withWatch] at hmem
    rcases List.mem_append.mp hmem with hmem | hmem
    · split at he
      · -- No watch that stood before has the new token.
        have hle := h.listeners w hmem
        rw [← Option.some.inj he] at htoken
        rw [← htoken] at hle
        exact absurd hle (Nat.not_succ_le_self _)
      · exact h.faithful w hmem e he htoken
    · rw [List.mem_singleton.mp hmem] at he ⊢
      rw [if_pos rfl] at he
      rw [← Option.some.inj he]
      rfl
  listeners := by
    intro w hmem
    rw [watches_withWatch] at hmem
    rcases List.mem_append.mp hmem with hmem | hmem
    · exact Nat.le_succ_of_le (h.listeners w hmem)
    · rw [List.mem_singleton.mp hmem]
      exact Nat.le_refl _
  ids := by
    rw [watches_withWatch, List.map_append]
    refine List.nodup_append.mpr ⟨h.ids, List.nodup_singleton _, fun x hx y hy => ?_⟩
    obtain ⟨w, hmem, rfl⟩ := List.mem_map.mp hx
    rw [List.mem_singleton.mp hy]
    exact Nat.ne_of_lt (h.next w hmem)
  next := by
    intro w hmem
    rw [watches_withWatch] at hmem
    rcases List.mem_append.mp hmem with hmem | hmem
    · exact Nat.lt_succ_of_lt (h.next w hmem)
    · rw [List.mem_singleton.mp hmem]
      exact Nat.lt_succ_self _

/-- A subscription has begun. -/
structure Bound (r : Registry) (t : MemoryTree Binding) (p : SubscribePath) (r' : Registry)
    (t' : MemoryTree Binding) : Prop where
  keys : r'.entries.keys = r.entries.keys ++ [p.sid]
  other : ∀ sid, sid ≠ p.sid → r'.entries.get? sid = r.entries.get? sid
  entry : ∃ e, r'.entries.get? p.sid = some e ∧ e.path = p.path ∧ e.qos = p.qos
  queued : ∀ sid, sid ≠ p.sid → about sid r'.queued = about sid r.queued
  initial : latest none p.sid r'.queued = t.readValue p.path
  values : t'.values = t.values
  mem : ∀ v ∈ r'.queued, v ∈ r.queued ∨ t.readValue p.path = some v.update

theorem bind_spec (hw : r.Watching t) {p : SubscribePath} (now : Timestamp)
    (hvalid : Path.valid p.path = true) (hout : r.outlet.isSome) (hnew : p.sid ∉ r.entries.keys) :
    r.Schedules (r.bind now t p).1 (r.bind now t p).2.1 ∧
      (r.bind now t p).2.1.Watching (r.bind now t p).2.2 ∧
      r.Bound t p (r.bind now t p).2.1 (r.bind now t p).2.2 := by
  have hw1 := hw.withEntry hnew
  have hs1 : r.Schedules [] (r.withEntry t p) :=
    ⟨rfl, rfl, rfl, fun _ he => absurd he List.not_mem_nil, .inl, id, .inl⟩
  have hentry : (r.withEntry t p).entries.get? p.sid = some (r.newEntry t p) := by
    rw [get?_withEntry, if_pos rfl]
  have hother : ∀ sid, sid ≠ p.sid →
      (r.withEntry t p).entries.get? sid = r.entries.get? sid := by
    intro sid hne
    rw [get?_withEntry, if_neg hne]
  have hnone : about p.sid (r.withEntry t p).queued = [] :=
    about_eq_nil.mpr fun u hu he => hnew (he ▸ hw.queued u hu)
  rw [bind_eq now hvalid hout hnew]
  cases hread : t.readValue p.path with
  | none =>
    refine ⟨hs1, hw1, keys_withEntry t hnew, hother, ⟨_, hentry, rfl, rfl⟩, fun _ _ => rfl, ?_, rfl,
      fun v hv => .inl hv⟩
    rw [hread]
    exact latest_of_about_nil hnone none
  | some u =>
    have hr := recorded (b := ⟨p.sid, r.nextToken + 1⟩) hentry u
    have hs2 := record_schedules (r := r.withEntry t p) ⟨p.sid, r.nextToken + 1⟩ (r.newEntry t p) u
    refine ⟨hs1.trans hs2, hw1.recorded hentry hr, ?_, ?_, ?_, hr.other, ?_, rfl, ?_⟩
    · rw [hr.keys, keys_withEntry t hnew]
    · intro sid hne
      rw [hr.get, if_neg hne, hother sid hne]
    · exact ⟨_, by rw [hr.get, if_pos rfl], rfl, rfl⟩
    · obtain ⟨pre, hpre, -⟩ := hr.newest fun _ => by
        rw [hnone]
        exact Nat.zero_le 1
      rw [hread]
      exact latest_of_about_snoc hpre none
    · intro v hv
      rw [hread]
      rcases hr.mem v hv with rfl | hv
      · exact .inr rfl
      · exact .inl hv

theorem bind_invalid {p : SubscribePath} (now : Timestamp) (h : Path.valid p.path = false) :
    r.bind now t p = ([], r, t) := by
  rw [bind, if_pos (by simp [h])]

/-! ## Subscriptions end -/

/-- Subscriptions have ended, and nothing of theirs waits. -/
structure Released (r : Registry) (t : MemoryTree Binding) (sids : List Nat) (r' : Registry)
    (t' : MemoryTree Binding) : Prop where
  keys : r'.entries.keys = r.entries.keys.filter (· ∉ sids)
  get : ∀ sid, r'.entries.get? sid = if sid ∈ sids then none else r.entries.get? sid
  values : t'.values = t.values
  nextToken : r'.nextToken = r.nextToken
  outlet : r'.outlet = r.outlet
  ops : r'.ops = r.ops
  draining : r'.draining = r.draining
  flushScheduled : r'.flushScheduled = r.flushScheduled
  queued : r'.queued = r.queued

theorem unwatch_of_some {e : RegistryEntry} {id : Nat} (h : e.watch = some id) :
    unwatch t e = t.unwatch id := by
  rw [unwatch, h]
  rfl

/-- An entry is removed, and its watch ends. -/
theorem Watching.removed (hw : r.Watching t) {sid : Nat} (hq : ∀ u ∈ r.queued, u.sid ≠ sid)
    {e : RegistryEntry} (he : r.entries.get? sid = some e) :
    ({ r with entries := r.entries.erase sid } : Registry).Watching (unwatch t e) := by
  obtain ⟨w0, hmem0, hid0, -, hlistener0⟩ := hw.watched sid e he
  rw [unwatch_of_some hid0]
  have hsub : ∀ w ∈ (t.unwatch w0.id).watches, w ∈ t.watches := fun w hmem =>
    List.mem_of_mem_filter hmem
  exact {
    distinct := hw.distinct.erase sid
    queued := by
      intro u hu
      rw [Table.keys_erase]
      exact List.mem_filter.mpr ⟨hw.queued u hu, by simpa using hq u hu⟩
    single := fun sid' e' he' => hw.single sid' e' (Table.get?_erase_eq_some.mp he').2
    tokens := fun sid' e' he' => hw.tokens sid' e' (Table.get?_erase_eq_some.mp he').2
    watched := by
      intro sid' e' he'
      obtain ⟨hne, he'⟩ := Table.get?_erase_eq_some.mp he'
      obtain ⟨w, hmem, hid, hpath, hlistener⟩ := hw.watched sid' e' he'
      refine ⟨w, List.mem_filter.mpr ⟨hmem, ?_⟩, hid, hpath, hlistener⟩
      -- The watch that ends is of another subscription.
      have hids : w.id ≠ w0.id := by
        intro hsame
        have hw0 := List.inj_on_of_nodup_map hw.ids hmem hmem0 hsame
        rw [hw0, hlistener0] at hlistener
        exact hne (congrArg Binding.sid hlistener).symm
      simpa using hids
    faithful := fun w hmem e' he' =>
      hw.faithful w (hsub w hmem) e' (Table.get?_erase_eq_some.mp he').2
    listeners := fun w hmem => hw.listeners w (hsub w hmem)
    ids := hw.ids.sublist (List.filter_sublist.map _)
    next := fun w hmem => hw.next w (hsub w hmem) }

theorem unwatch_spec (t : MemoryTree Binding) (e : RegistryEntry) :
    (unwatch t e).values = t.values ∧ (unwatch t e).nextWatch = t.nextWatch ∧
      (unwatch t e).watches.Sublist t.watches := by
  unfold unwatch
  split
  · exact ⟨rfl, rfl, List.filter_sublist⟩
  · exact ⟨rfl, rfl, .refl _⟩

theorem releaseOne_spec (hw : r.Watching t) {sid : Nat} (hq : ∀ u ∈ r.queued, u.sid ≠ sid) :
    (r.releaseOne t sid).1.Watching (r.releaseOne t sid).2 ∧
      r.Released t [sid] (r.releaseOne t sid).1 (r.releaseOne t sid).2 := by
  unfold releaseOne
  cases he : r.entries.get? sid with
  | none =>
    dsimp only
    refine ⟨hw, ?_, ?_, rfl, rfl, rfl, rfl, rfl, rfl, rfl⟩
    · refine (List.filter_eq_self.mpr fun k hk => ?_).symm
      have hne : k ≠ sid := by
        rintro rfl
        exact Table.get?_eq_none.mp he hk
      simpa using hne
    · intro sid'
      split
      · rename_i hs
        rw [List.mem_singleton.mp hs, he]
      · rfl
  | some e =>
    dsimp only
    refine ⟨hw.removed hq he, ?_, ?_, (unwatch_spec t e).1, rfl, rfl, rfl, rfl, rfl, rfl⟩
    · rw [Table.keys_erase]
      exact List.filter_congr fun k _ => by simp
    · intro sid'
      rw [Table.get?_erase]
      simp only [List.mem_singleton]

/-- The registry without the values that wait for subscriptions. -/
def withoutQueued (r : Registry) (sids : List Nat) : Registry :=
  { r with queued := r.queued.filter fun u => !sids.contains u.sid }

/-- Ends subscriptions one after the other. -/
def releaseEach (r : Registry) (t : MemoryTree Binding) (sids : List Nat) :
    Registry × MemoryTree Binding :=
  sids.foldl (fun p sid => releaseOne p.1 p.2 sid) (r, t)

theorem releaseEach_cons (r : Registry) (t : MemoryTree Binding) (sid : Nat) (sids : List Nat) :
    r.releaseEach t (sid :: sids) =
      (r.releaseOne t sid).1.releaseEach (r.releaseOne t sid).2 sids := rfl

theorem release_eq_releaseEach (r : Registry) (t : MemoryTree Binding) (sids : List Nat) :
    r.release t sids = (r.withoutQueued sids).releaseEach t sids := rfl

theorem releaseEach_spec : ∀ (sids : List Nat) (r : Registry) (t : MemoryTree Binding),
    r.Watching t → (∀ u ∈ r.queued, u.sid ∉ sids) →
    (r.releaseEach t sids).1.Watching (r.releaseEach t sids).2 ∧
      r.Released t sids (r.releaseEach t sids).1 (r.releaseEach t sids).2
  | [], r, t, hw, _ => by
    refine ⟨hw, ?_, ?_, rfl, rfl, rfl, rfl, rfl, rfl, rfl⟩
    · simp [releaseEach]
    · simp [releaseEach]
  | sid :: sids, r, t, hw, hq => by
    obtain ⟨hw1, h1⟩ := releaseOne_spec hw fun u hu he => hq u hu (he ▸ List.mem_cons_self)
    have hq1 : ∀ u ∈ (r.releaseOne t sid).1.queued, u.sid ∉ sids := by
      rw [h1.queued]
      exact fun u hu hmem => hq u hu (List.mem_cons_of_mem sid hmem)
    obtain ⟨hw2, h2⟩ := releaseEach_spec sids _ _ hw1 hq1
    refine ⟨hw2, ?_, ?_, h2.values.trans h1.values, h2.nextToken.trans h1.nextToken,
      h2.outlet.trans h1.outlet, h2.ops.trans h1.ops, h2.draining.trans h1.draining,
      h2.flushScheduled.trans h1.flushScheduled, h2.queued.trans h1.queued⟩
    · rw [releaseEach_cons, h2.keys, h1.keys, List.filter_filter]
      exact List.filter_congr fun k _ => by simp [Bool.and_comm]
    · intro sid'
      rw [releaseEach_cons, h2.get, h1.get]
      by_cases hs : sid' = sid <;> by_cases hm : sid' ∈ sids <;> simp [hs, hm]

theorem mem_withoutQueued {sids : List Nat} {u : SubscriptionUpdate} :
    u ∈ (r.withoutQueued sids).queued ↔ u ∈ r.queued ∧ u.sid ∉ sids := by
  simp [withoutQueued, List.mem_filter]

theorem about_withoutQueued {sids : List Nat} {sid : Nat} (h : sid ∉ sids) :
    about sid (r.withoutQueued sids).queued = about sid r.queued := by
  rw [about, about, withoutQueued, List.filter_filter]
  refine List.filter_congr fun u _ => ?_
  by_cases hs : u.sid = sid
  · simp [hs, h]
  · simp [hs]

theorem Watching.withoutQueued (h : r.Watching t) (sids : List Nat) :
    (r.withoutQueued sids).Watching t where
  distinct := h.distinct
  queued := fun u hu => h.queued u (mem_withoutQueued.mp hu).1
  single := by
    intro sid e he hq
    have hsub : (r.withoutQueued sids).queued.Sublist r.queued := List.filter_sublist
    exact Nat.le_trans (hsub.filter _).length_le (h.single sid e he hq)
  tokens := h.tokens
  watched := h.watched
  faithful := h.faithful
  listeners := h.listeners
  ids := h.ids
  next := h.next

theorem release_spec (hw : r.Watching t) (sids : List Nat) :
    (r.release t sids).1.Watching (r.release t sids).2 ∧
      (r.withoutQueued sids).Released t sids (r.release t sids).1 (r.release t sids).2 := by
  rw [release_eq_releaseEach]
  exact releaseEach_spec sids (r.withoutQueued sids) t (hw.withoutQueued sids) fun _ hu =>
    (mem_withoutQueued.mp hu).2

/-! ## The end of a connection -/

theorem foldl_unwatch : ∀ (es : List RegistryEntry) (t : MemoryTree Binding),
    (es.foldl unwatch t).values = t.values ∧ (es.foldl unwatch t).nextWatch = t.nextWatch ∧
      (es.foldl unwatch t).watches.Sublist t.watches
  | [], _ => ⟨rfl, rfl, .refl _⟩
  | e :: es, t => by
    obtain ⟨hvalues, hnext, hwatches⟩ := unwatch_spec t e
    obtain ⟨h1, h2, h3⟩ := foldl_unwatch es (unwatch t e)
    exact ⟨h1.trans hvalues, h2.trans hnext, h3.trans hwatches⟩

theorem Watching.closeAll (h : r.Watching t) : (r.closeAll t).1.Watching (r.closeAll t).2 := by
  obtain ⟨-, hnext, hsub⟩ := foldl_unwatch r.entries.values t
  exact
    { distinct := List.nodup_nil
      queued := fun _ hu => absurd hu List.not_mem_nil
      single := fun _ _ he => absurd he Table.get?_empty_ne
      tokens := fun _ _ he => absurd he Table.get?_empty_ne
      watched := fun _ _ he => absurd he Table.get?_empty_ne
      faithful := fun _ _ _ he => absurd he Table.get?_empty_ne
      listeners := fun w hw => h.listeners w (hsub.subset hw)
      ids := h.ids.sublist (hsub.map _)
      next := fun w hw => hnext ▸ h.next w (hsub.subset hw) }

end Registry
end PeerLink
