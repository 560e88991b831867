import PeerLink.Proofs.RegistrySteps
import PeerLink.Proofs.Wishes

/-! # A requester and a registry

The two differ while wishes are on their way to the registry, or values on their way back.

* `Coherent`: with all wishes applied the registry holds what the requester wants, and with all
  values received the requester has those of the tree.
* `Coherent.add` to `Coherent.record`: what either side does keeps it.
* `Coherent.settled`: what it says when nothing is on its way.
-/

namespace PeerLink
set_option autoImplicit false

/-- The wishes `sent` have not been applied, and the updates `us` have not come. -/
structure Coherent (q : SubscriptionTable) (r : Registry) (t : MemoryTree Binding)
    (sent : List Wish) (us : List SubscriptionUpdate) : Prop where
  ordered : q.Ordered
  watching : r.Watching t
  once : (r.entries.keys ++ begun sent ++ q.toSubscribe).Nodup
  held : ∀ sid ∈ r.entries.keys, sid < q.nextSid
  wished : ∀ w ∈ sent, w.sid < q.nextSid
  ended : ∀ sid ∈ q.toUnsubscribe, sid < q.nextSid
  coming : ∀ u ∈ us, u.sid < q.nextSid
  left : ∀ sid, sid ∈ q.toUnsubscribe ∨ .ends sid ∈ sent → q.entries.get? sid = none
  view : ∀ sid, q.asked sid (outcome sid sent (r.view sid)) = q.view sid
  idle : ∀ sid e, q.entries.get? sid = some e → r.entries.get? sid = none →
    e.last = none ∧ about sid us = []
  fresh : ∀ sid e e', q.entries.get? sid = some e → r.entries.get? sid = some e' →
    latest e.last sid (us ++ r.queued) = t.readValue e'.path
  values : ∀ path u, t.readValue path = some u → u.Travels
  updates : ∀ u ∈ us ++ r.queued, u.update.Travels

namespace Coherent
variable {q : SubscriptionTable} {r : Registry} {t : MemoryTree Binding} {sent : List Wish}
  {us : List SubscriptionUpdate}

theorem start {t : MemoryTree Binding} (hwatches : t.watches = [])
    (hvalues : ∀ path u, t.readValue path = some u → u.Travels) : Coherent {} {} t [] [] where
  ordered :=
    { below := fun _ _ he => absurd he Table.get?_empty_ne
      unsent := fun _ _ he => absurd he Table.get?_empty_ne
      waiting := fun _ hm => absurd hm List.not_mem_nil
      bound := by decide
      scheduled := fun h => absurd rfl (h.elim id id) }
  watching :=
    { distinct := List.nodup_nil
      queued := fun _ hm => absurd hm List.not_mem_nil
      single := fun _ _ he => absurd he Table.get?_empty_ne
      tokens := fun _ _ he => absurd he Table.get?_empty_ne
      watched := fun _ _ he => absurd he Table.get?_empty_ne
      faithful := fun w hw => absurd (hwatches ▸ hw) List.not_mem_nil
      listeners := fun w hw => absurd (hwatches ▸ hw) List.not_mem_nil
      ids := by
        rw [hwatches]
        exact List.nodup_nil
      next := fun w hw => absurd (hwatches ▸ hw) List.not_mem_nil }
  once := List.nodup_nil
  held := fun _ hm => absurd hm List.not_mem_nil
  wished := fun _ hm => absurd hm List.not_mem_nil
  ended := fun _ hm => absurd hm List.not_mem_nil
  coming := fun _ hm => absurd hm List.not_mem_nil
  left := fun _ _ => rfl
  view := fun _ => rfl
  idle := fun _ _ he => absurd he Table.get?_empty_ne
  fresh := fun _ _ _ he => absurd he Table.get?_empty_ne
  values := hvalues
  updates := fun _ hm => absurd hm List.not_mem_nil

theorem same (h : Coherent q r t sent us) {r' : Registry} (he : r'.entries = r.entries)
    (hq : r'.queued = r.queued) (ht : r'.nextToken = r.nextToken) :
    Coherent q r' t sent us := by
  obtain ⟨_, entries, _, _, queued, _, token⟩ := r
  obtain ⟨_, _, _, _, _, _, _⟩ := r'
  dsimp only at he hq ht
  subst he hq ht
  exact
    { h with
      watching := { h.watching with } }

theorem mem_begun {sid : Nat} : ∀ {ws : List Wish}, sid ∈ begun ws → ∃ w ∈ ws, w.sid = sid := by
  intro ws hmem
  obtain ⟨w, hw, hsid⟩ := List.mem_filterMap.mp hmem
  refine ⟨w, hw, ?_⟩
  cases w with
  | begins p => exact Option.some.inj hsid
  | ends _ => cases hsid

theorem next_notMem (h : Coherent q r t sent us) :
    q.nextSid ∉ r.entries.keys ++ begun sent ++ q.toSubscribe := by
  intro hmem
  rcases List.mem_append.mp hmem with hmem | hmem
  · rcases List.mem_append.mp hmem with hmem | hmem
    · exact Nat.lt_irrefl _ (h.held _ hmem)
    · obtain ⟨w, hw, hsid⟩ := mem_begun hmem
      exact Nat.lt_irrefl _ (hsid ▸ h.wished w hw)
  · obtain ⟨e, he⟩ := h.ordered.waiting _ hmem
    exact Nat.lt_irrefl _ (h.ordered.below _ e he)

/-! ## The requester asks -/

theorem add (h : Coherent q r t sent us) (hbound : q.nextSid < wordBound) (path : String)
    (qos : Nat) (handler : Handler) :
    Coherent (q.add path qos handler).2.2 r t sent us := by
  have hget := h.ordered.get?_add path qos handler
  have hsub := h.ordered.toSubscribe_add path qos handler
  have hnext := h.ordered.nextSid_add path qos handler
  have hun : (q.add path qos handler).2.2.toUnsubscribe = q.toUnsubscribe := rfl
  have hnew := h.next_notMem
  simp only [List.mem_append, not_or] at hnew
  obtain ⟨⟨hkeys, hbegun⟩, -⟩ := hnew
  have hlt : ∀ {sid : Nat}, sid < q.nextSid → sid < (q.add path qos handler).2.2.nextSid := by
    intro sid hs
    rw [hnext]
    exact Nat.lt_succ_of_lt hs
  have hnotEnded : ¬ (q.nextSid ∈ q.toUnsubscribe ∨ .ends q.nextSid ∈ sent) := by
    rintro (hm | hm)
    · exact Nat.lt_irrefl _ (h.ended _ hm)
    · exact Nat.lt_irrefl _ (h.wished _ hm)
  refine ⟨h.ordered.add hbound path qos handler, h.watching, ?once,
    fun sid hm => hlt (h.held sid hm), fun w hw => hlt (h.wished w hw),
    fun sid hm => hlt (h.ended sid hm), fun u hu => hlt (h.coming u hu), ?left, ?view, ?idle,
    ?fresh, h.values, h.updates⟩
  case once =>
    rw [hsub, ← List.append_assoc]
    refine List.nodup_append.mpr ⟨h.once, List.nodup_singleton _, fun x hx y hy he => ?_⟩
    rw [List.mem_singleton.mp hy] at he
    exact h.next_notMem (he ▸ hx)
  case left =>
    intro sid hor
    have hne : sid ≠ q.nextSid := fun hs => hnotEnded (hs ▸ hor)
    rw [hget, if_neg hne]
    exact h.left sid hor
  case view =>
    intro sid
    by_cases hs : sid = q.nextSid
    · -- Nobody has heard of the new number.
      have hnone : outcome sid sent (r.view sid) = none := by
        rw [Registry.view, Table.get?_eq_none.mpr (hs ▸ hkeys)]
        exact outcome_none (hs ▸ hbegun)
      have hout : sid ∉ q.toUnsubscribe := fun hm => hnotEnded (.inl (hs ▸ hm))
      rw [SubscriptionTable.asked, hsub, hun, hnone, Option.or_none, if_neg hout,
        if_pos (by simp [hs])]
    · refine SubscriptionTable.asked_congr (q := q) ?_ ?_ Iff.rfl (h.view sid)
      · rw [hget, if_neg hs]
      · rw [hsub]
        simp [hs]
  case idle =>
    intro sid e he hr
    rw [hget] at he
    split at he
    · rename_i hs
      rw [← Option.some.inj he]
      refine ⟨rfl, about_eq_nil.mpr fun u hu hsid => ?_⟩
      exact Nat.lt_irrefl _ ((hsid.trans hs) ▸ h.coming u hu)
    · exact h.idle sid e he hr
  case fresh =>
    intro sid e e' he he'
    rw [hget] at he
    split at he
    · rename_i hs
      have hnone : r.entries.get? sid = none := Table.get?_eq_none.mpr (hs ▸ hkeys)
      rw [hnone] at he'
      cases he'
    · exact h.fresh sid e e' he he'

/-- A subscription ends that the registry has been told of, or will be. -/
theorem remove_of_sent (h : Coherent q r t sent us) {sid : Nat} {e : Subscription}
    (he : q.entries.get? sid = some e) (hs : e.sent = true) :
    Coherent (q.remove sid).2 r t sent us := by
  have hordered := h.ordered.remove_of_sent he hs
  rw [SubscriptionTable.remove_of_sent he hs] at hordered ⊢
  have hget : ∀ sid' e', (q.entries.erase sid).get? sid' = some e' →
      q.entries.get? sid' = some e' := fun _ _ he' => (Table.get?_erase_eq_some.mp he').2
  refine ⟨hordered, h.watching, h.once, h.held, h.wished, ?ended, h.coming, ?left, ?view,
    fun sid' e' he' => h.idle sid' e' (hget sid' e' he'),
    fun sid' e' e'' he' => h.fresh sid' e' e'' (hget sid' e' he'), h.values, h.updates⟩
  case ended =>
    intro sid' hm
    rcases List.mem_append.mp hm with hm | hm
    · exact h.ended sid' hm
    · rw [List.mem_singleton.mp hm]
      exact h.ordered.below sid e he
  case left =>
    intro sid' hor
    rw [Table.get?_erase]
    split
    · rfl
    · rename_i hne
      refine h.left sid' (hor.imp (fun hm => ?_) id)
      exact (List.mem_append.mp hm).resolve_right fun hm => hne (List.mem_singleton.mp hm)
  case view =>
    intro sid'
    by_cases hne : sid' = sid
    · simp [hne, SubscriptionTable.asked, SubscriptionTable.view, Table.get?_erase]
    · refine SubscriptionTable.asked_congr (q := q) ?_ Iff.rfl ?_ (h.view sid')
      · exact (Table.get?_erase _ _ _).trans (if_neg hne)
      · simp [hne]

/-- A subscription ends that the registry has never heard of. -/
theorem remove_of_unsent (h : Coherent q r t sent us) {sid : Nat} {e : Subscription}
    (he : q.entries.get? sid = some e) (hs : e.sent = false) :
    Coherent (q.remove sid).2 r t sent us := by
  have hordered := h.ordered.remove_of_unsent he hs
  rw [SubscriptionTable.remove_of_unsent he hs] at hordered ⊢
  have hget : ∀ sid' e', (q.entries.erase sid).get? sid' = some e' →
      q.entries.get? sid' = some e' := fun _ _ he' => (Table.get?_erase_eq_some.mp he').2
  have hsub : sid ∈ q.toSubscribe := (h.ordered.unsent sid e he).mpr hs
  refine ⟨hordered, h.watching, ?once, h.held, h.wished, h.ended, h.coming, ?left, ?view,
    fun sid' e' he' => h.idle sid' e' (hget sid' e' he'),
    fun sid' e' e'' he' => h.fresh sid' e' e'' (hget sid' e' he'), h.values, h.updates⟩
  case once =>
    exact h.once.sublist (List.filter_sublist.append_left _)
  case left =>
    intro sid' hor
    rw [Table.get?_erase]
    split
    · rfl
    · exact h.left sid' hor
  case view =>
    intro sid'
    by_cases hne : sid' = sid
    · -- Nothing was sent, so nothing will come of it.
      have hdisjoint := (List.nodup_append.mp h.once).2.2
      have hnot : sid ∉ r.entries.keys ++ begun sent := fun hm => hdisjoint sid hm sid hsub rfl
      rw [List.mem_append, not_or] at hnot
      have hnone : outcome sid sent (r.view sid) = none := by
        rw [Registry.view, Table.get?_eq_none.mpr hnot.1]
        exact outcome_none hnot.2
      simp [hne, hnone, SubscriptionTable.asked, SubscriptionTable.view, Table.get?_erase]
    · refine SubscriptionTable.asked_congr (q := q) ?_ ?_ Iff.rfl (h.view sid')
      · exact (Table.get?_erase _ _ _).trans (if_neg hne)
      · simp [hne]

theorem takeBatch (h : Coherent q r t sent us) :
    Coherent q.takeBatch.2 r t (sent ++ q.next) us := by
  have hbegun : begun q.next = q.toSubscribe := by
    rw [SubscriptionTable.next, begun_append, begun_map_begins, begun_map_ends, List.append_nil]
    exact h.ordered.sid_batch
  have hget : ∀ sid e, q.takeBatch.2.entries.get? sid = some e →
      ∃ e0, q.entries.get? sid = some e0 ∧ e.last = e0.last := by
    intro sid e he
    rw [SubscriptionTable.get?_takeBatch] at he
    split at he
    · obtain ⟨e0, he0, rfl⟩ := Option.map_eq_some_iff.mp he
      exact ⟨e0, he0, rfl⟩
    · exact ⟨e, he, rfl⟩
  refine ⟨h.ordered.takeBatch, h.watching, ?once, h.held, ?wished,
    fun _ hm => absurd hm List.not_mem_nil, h.coming, ?left, ?view, ?idle, ?fresh,
    h.values, h.updates⟩
  case once =>
    have hnil : q.takeBatch.2.toSubscribe = [] := rfl
    rw [begun_append, hbegun, hnil, List.append_nil, ← List.append_assoc]
    exact h.once
  case wished =>
    intro w hw
    rcases List.mem_append.mp hw with hw | hw
    · exact h.wished w hw
    · rcases List.mem_append.mp hw with hw | hw
      · obtain ⟨p, hp, rfl⟩ := List.mem_map.mp hw
        obtain ⟨sid, -, hbatch⟩ := List.mem_filterMap.mp hp
        obtain ⟨e, he, rfl⟩ := Option.map_eq_some_iff.mp hbatch
        exact h.ordered.below sid e he
      · obtain ⟨sid, hsid, rfl⟩ := List.mem_map.mp hw
        exact h.ended sid hsid
  case left =>
    intro sid hor
    have hleft : q.entries.get? sid = none := by
      refine h.left sid ?_
      rcases hor with hm | hm
      · exact absurd hm List.not_mem_nil
      · rcases List.mem_append.mp hm with hm | hm
        · exact .inr hm
        · left
          rcases List.mem_append.mp hm with hm | hm
          · obtain ⟨p, -, hp⟩ := List.mem_map.mp hm
            cases hp
          · obtain ⟨sid', hsid, hends⟩ := List.mem_map.mp hm
            cases hends
            exact hsid
    rw [SubscriptionTable.get?_takeBatch, hleft, Option.map_none, ite_self]
  case view =>
    intro sid
    rw [SubscriptionTable.asked_of_nil rfl rfl, outcome_append, SubscriptionTable.outcome_next,
      SubscriptionTable.view_takeBatch]
    exact h.view sid
  case idle =>
    intro sid e he hr
    obtain ⟨e0, he0, hlast⟩ := hget sid e he
    rw [hlast]
    exact h.idle sid e0 he0 hr
  case fresh =>
    intro sid e e' he he'
    obtain ⟨e0, he0, hlast⟩ := hget sid e he
    rw [hlast]
    exact h.fresh sid e0 e' he0 he'

/-! ## The registry follows -/

variable {p : SubscribePath} {op : RegistryOp} {r' : Registry} {t' : MemoryTree Binding}

theorem begins_notMem (h : Coherent q r t (.begins p :: sent) us) : p.sid ∉ r.entries.keys := by
  intro hm
  have hdisjoint := (List.nodup_append.mp (List.nodup_append.mp h.once).1).2.2
  exact hdisjoint p.sid hm p.sid List.mem_cons_self rfl

/-- A path that is not valid is passed over on both sides. -/
theorem skip (h : Coherent q r t (.begins p :: sent) us) (hvalid : Path.valid p.path = false) :
    Coherent q r t sent us :=
  { h with
    once := by
      have hsub : (begun sent).Sublist (begun (.begins p :: sent)) := List.sublist_cons_self ..
      exact h.once.sublist ((hsub.append_left _).append_right _)
    wished := fun w hw => h.wished w (List.mem_cons_of_mem _ hw)
    left := fun sid hor => h.left sid (hor.imp id (List.mem_cons_of_mem _))
    view := by
      intro sid
      have hview := h.view sid
      rwa [outcome_cons, Wish.on, if_neg (by simp [hvalid])] at hview }

theorem bound (h : Coherent q r t (.begins p :: sent) us) (hvalid : Path.valid p.path = true)
    (hw : r'.Watching t') (hb : r.Bound t p r' t') : Coherent q r' t' sent us := by
  have hread : ∀ path, t'.readValue path = t.readValue path := by
    intro path
    rw [MemoryTree.readValue, MemoryTree.readValue, hb.values]
  obtain ⟨e0, he0, hpath, hqos⟩ := hb.entry
  have hnone : r.entries.get? p.sid = none := Table.get?_eq_none.mpr h.begins_notMem
  refine ⟨h.ordered, hw, ?once, ?held, fun w hm => h.wished w (List.mem_cons_of_mem _ hm), h.ended,
    h.coming, fun sid hor => h.left sid (hor.imp id (List.mem_cons_of_mem _)), ?view, ?idle, ?fresh,
    ?values, ?updates⟩
  case once =>
    rw [hb.keys, List.append_assoc r.entries.keys]
    exact h.once
  case held =>
    intro sid hm
    rw [hb.keys, List.mem_append, List.mem_singleton] at hm
    rcases hm with hm | rfl
    · exact h.held sid hm
    · exact h.wished _ List.mem_cons_self
  case view =>
    intro sid
    have hon : r'.view sid = Wish.on sid (r.view sid) (.begins p) := by
      rw [Wish.on]
      by_cases hs : p.sid = sid
      · rw [if_pos ⟨hs, hvalid⟩, ← hs, Registry.view, he0, Option.map_some, hpath, hqos]
      · rw [if_neg fun hp => hs hp.1, Registry.view, hb.other sid (Ne.symm hs), Registry.view]
    have hview := h.view sid
    rwa [outcome_cons, ← hon] at hview
  case idle =>
    intro sid e he hr
    have hne : sid ≠ p.sid := by
      rintro rfl
      rw [he0] at hr
      cases hr
    rw [hb.other sid hne] at hr
    exact h.idle sid e he hr
  case fresh =>
    intro sid e e' he he'
    rw [hread]
    by_cases hs : sid = p.sid
    · -- All that the requester will hear of the number is the first value.
      subst hs
      rw [he0] at he'
      obtain ⟨hlast, hus⟩ := h.idle _ e he hnone
      have habout : about p.sid (us ++ r'.queued) = about p.sid r'.queued := by
        rw [about_append, hus, List.nil_append]
      rw [← Option.some.inj he', hlast, latest_congr habout, hb.initial, hpath]
    · have habout : about sid (us ++ r'.queued) = about sid (us ++ r.queued) := by
        rw [about_append, about_append, hb.queued sid hs]
      rw [hb.other sid hs] at he'
      rw [latest_congr habout]
      exact h.fresh sid e e' he he'
  case values =>
    intro path u hu
    rw [hread] at hu
    exact h.values path u hu
  case updates =>
    intro u hu
    rcases List.mem_append.mp hu with hu | hu
    · exact h.updates u (List.mem_append_left _ hu)
    · rcases hb.mem u hu with hu | hu
      · exact h.updates u (List.mem_append_right _ hu)
      · exact h.values _ _ hu

theorem bind (h : Coherent q r t (.begins p :: sent) us) (now : Timestamp)
    (hout : r.outlet.isSome) :
    r.Schedules (r.bind now t p).1 (r.bind now t p).2.1 ∧
      Coherent q (r.bind now t p).2.1 (r.bind now t p).2.2 sent us := by
  cases hvalid : Path.valid p.path with
  | false =>
    rw [Registry.bind_invalid now hvalid]
    exact ⟨.refl r, h.skip hvalid⟩
  | true =>
    obtain ⟨hs, hw, hb⟩ := Registry.bind_spec h.watching now hvalid hout h.begins_notMem
    exact ⟨hs, h.bound hvalid hw hb⟩

theorem bindAll (now : Timestamp) : ∀ (ps : List SubscribePath) (r : Registry)
    (t : MemoryTree Binding), Coherent q r t (ps.map .begins ++ sent) us → r.outlet.isSome →
    r.Schedules (r.bindAll now t ps).1 (r.bindAll now t ps).2.1 ∧
      Coherent q (r.bindAll now t ps).2.1 (r.bindAll now t ps).2.2 sent us
  | [], r, _, h, _ => ⟨.refl r, h⟩
  | _ :: ps, _, _, h, hout => by
    obtain ⟨hs, h1⟩ := h.bind now hout
    obtain ⟨hs', h2⟩ := bindAll now ps _ _ h1 (hs.outlet ▸ hout)
    exact ⟨hs.trans hs', h2⟩

theorem release {sids : List Nat} (h : Coherent q r t (sids.map .ends ++ sent) us) :
    r.Schedules [] (r.release t sids).1 ∧
      Coherent q (r.release t sids).1 (r.release t sids).2 sent us := by
  obtain ⟨hw, hrel⟩ := Registry.release_spec h.watching sids
  generalize (r.release t sids).1 = r' at hw hrel ⊢
  generalize (r.release t sids).2 = t' at hw hrel ⊢
  have hget : ∀ sid, r'.entries.get? sid = if sid ∈ sids then none else r.entries.get? sid :=
    hrel.get
  have hqueued : ∀ u, u ∈ r'.queued → u ∈ r.queued := by
    intro u hu
    rw [hrel.queued] at hu
    exact (Registry.mem_withoutQueued.mp hu).1
  have hread : ∀ path, t'.readValue path = t.readValue path := by
    intro path
    rw [MemoryTree.readValue, MemoryTree.readValue, hrel.values]
  have hkeys : r'.entries.keys.Sublist r.entries.keys := by
    rw [hrel.keys]
    exact List.filter_sublist
  have hbegun : begun (sids.map .ends ++ sent) = begun sent := by
    rw [begun_append, begun_map_ends, List.nil_append]
  have hnotEnds : ∀ sid e, q.entries.get? sid = some e → sid ∉ sids := by
    intro sid e he hm
    have hleft := h.left sid (.inr (List.mem_append_left _ (List.mem_map.mpr ⟨sid, hm, rfl⟩)))
    rw [he] at hleft
    cases hleft
  refine ⟨⟨hrel.outlet, hrel.ops, hrel.draining, fun _ hm => absurd hm List.not_mem_nil,
      ?flush, ?keeps, ?queued⟩,
    h.ordered, hw, ?once, fun sid hm => h.held sid (hkeys.subset hm),
    fun w hm => h.wished w (List.mem_append_right _ hm), h.ended, h.coming,
    fun sid hor => h.left sid (hor.imp id (List.mem_append_right _)), ?view, ?idle, ?fresh,
    ?values, ?updates⟩
  case flush =>
    intro hf
    rw [hrel.flushScheduled] at hf
    exact .inl hf
  case keeps =>
    intro hf
    rw [hrel.flushScheduled]
    exact hf
  case queued =>
    intro hq
    obtain ⟨u, hu⟩ := List.exists_mem_of_ne_nil _ hq
    exact .inl (List.ne_nil_of_mem (hqueued u hu))
  case once =>
    have honce := h.once
    rw [hbegun] at honce
    exact honce.sublist ((hkeys.append_right _).append_right _)
  case view =>
    intro sid
    have hview := h.view sid
    have hon : (if sid ∈ sids then none else r.view sid) = r'.view sid := by
      rw [Registry.view, Registry.view, hget]
      split <;> rfl
    rwa [outcome_append, outcome_ends, hon] at hview
  case idle =>
    intro sid e he hr
    rw [hget, if_neg (hnotEnds sid e he)] at hr
    exact h.idle sid e he hr
  case fresh =>
    intro sid e e' he he'
    have habout : about sid (us ++ r'.queued) = about sid (us ++ r.queued) := by
      rw [about_append, about_append, hrel.queued,
        Registry.about_withoutQueued (hnotEnds sid e he)]
    rw [hget, if_neg (hnotEnds sid e he)] at he'
    rw [latest_congr habout, hread]
    exact h.fresh sid e e' he he'
  case values =>
    intro path u hu
    rw [hread] at hu
    exact h.values path u hu
  case updates =>
    intro u hu
    refine h.updates u (List.mem_append.mpr ?_)
    exact (List.mem_append.mp hu).imp id (hqueued u)

theorem apply (h : Coherent q r t (op.wishes ++ sent) us) (now : Timestamp)
    (hout : r.outlet.isSome) :
    r.Schedules (r.apply now t op).1 (r.apply now t op).2.1 ∧
      Coherent q (r.apply now t op).2.1 (r.apply now t op).2.2 sent us := by
  cases op with
  | subscribe ps => exact bindAll now ps r t h hout
  | unsubscribe sids => exact h.release

theorem applyAll (now : Timestamp) : ∀ (ops : List RegistryOp) (r : Registry)
    (t : MemoryTree Binding), Coherent q r t (ops.flatMap (·.wishes) ++ sent) us →
    (ops ≠ [] → r.outlet.isSome) →
    r.Schedules (r.applyAll now t ops).1 (r.applyAll now t ops).2.1 ∧
      Coherent q (r.applyAll now t ops).2.1 (r.applyAll now t ops).2.2 sent us
  | [], r, _, h, _ => ⟨.refl r, h⟩
  | op :: ops, r, t, h, hout => by
    rw [List.flatMap_cons, List.append_assoc] at h
    have hopen := hout (List.cons_ne_nil op ops)
    obtain ⟨hs, h1⟩ := h.apply now hopen
    obtain ⟨hs', h2⟩ := applyAll now ops _ _ h1 fun _ => hs.outlet ▸ hopen
    exact ⟨hs.trans hs', h2⟩

/-! ## Values -/

theorem readValue_setValue (t : MemoryTree Binding) (now : Timestamp) (path : String)
    (v : Json.Value) (path' : String) : (t.setValue now path v).2.readValue path' =
      if path' = path then some { value := v, time := now } else t.readValue path' :=
  Table.get?_insert _ _ _ _

theorem mem_setValue_notices {t : MemoryTree Binding} {now : Timestamp} {path : String}
    {v : Json.Value} {n : Notice Binding} : n ∈ (t.setValue now path v).1 ↔
      ∃ w ∈ t.watches, w.path = path ∧ n = ⟨w.listener, { value := v, time := now }⟩ := by
  simp only [MemoryTree.setValue, MemoryTree.watchesOf, List.mem_map, List.mem_filter,
    decide_eq_true_eq]
  constructor
  · rintro ⟨w, ⟨hw, hp⟩, rfl⟩
    exact ⟨w, hw, hp, rfl⟩
  · rintro ⟨w, hw, hp, rfl⟩
    exact ⟨w, ⟨hw, hp⟩, rfl⟩

theorem setValue (h : Coherent q r t sent us) {now : Timestamp} {v : Json.Value} (path : String)
    (hv : ValueUpdate.Travels { value := v, time := now }) :
    r.Schedules (r.onChanges (t.setValue now path v).1).1
        (r.onChanges (t.setValue now path v).1).2 ∧
      Coherent q (r.onChanges (t.setValue now path v).1).2 (t.setValue now path v).2 sent us := by
  have hread := readValue_setValue t now path v
  have hw0 : r.Watching (t.setValue now path v).2 := h.watching.congr rfl rfl
  obtain ⟨hs, hw, ht⟩ := Registry.onChanges_spec (t.setValue now path v).1 r hw0 fun n hn => by
    obtain ⟨w, -, -, rfl⟩ := mem_setValue_notices.mp hn
    rfl
  generalize (t.setValue now path v).2 = t' at hread hw ⊢
  generalize (r.onChanges (t.setValue now path v).1).2 = r' at hs hw ht ⊢
  refine ⟨hs, h.ordered, hw, ?once, ?held, h.wished, h.ended, h.coming, h.left, ?view,
    fun sid e he hr => h.idle sid e he (ht.no_entry hr), ?fresh, ?values, ?updates⟩
  case once =>
    rw [ht.keys]
    exact h.once
  case held =>
    rw [ht.keys]
    exact h.held
  case view =>
    intro sid
    have hview : r'.view sid = r.view sid := by
      have hbare := congrArg (Option.map fun e => (e.path, e.qos)) (ht.bare sid)
      rw [Option.map_map, Option.map_map] at hbare
      exact hbare
    rw [hview]
    exact h.view sid
  case fresh =>
    intro sid e e' he he'
    obtain ⟨e0, he0, hbare⟩ := ht.entry he'
    have hpath : e'.path = e0.path := (congrArg RegistryEntry.path hbare :)
    rw [hread, hpath]
    -- The watch of an entry is on its path, so it hears of the change exactly if that is the path.
    by_cases hp : e0.path = path
    · obtain ⟨w, hmem, -, hwpath, hlistener⟩ := h.watching.watched sid e0 he0
      obtain ⟨pre, hpre⟩ := ht.newest sid e0 he0
        ⟨_, mem_setValue_notices.mpr ⟨w, hmem, hwpath.trans hp, rfl⟩, hlistener⟩
      have habout : about sid (us ++ r'.queued) =
          about sid us ++ pre ++ [⟨sid, { value := v, time := now }⟩] := by
        rw [about_append, hpre, List.append_assoc]
      rw [if_pos hp]
      exact latest_of_about_snoc habout e.last
    · have habout : about sid (us ++ r'.queued) = about sid (us ++ r.queued) := by
        rw [about_append, about_append, ht.other sid]
        intro e1 he1 n hn hl
        obtain ⟨w, hmem, hwpath, rfl⟩ := mem_setValue_notices.mp hn
        have hl' : w.listener = ⟨sid, e1.token⟩ := hl
        have hfaithful := h.watching.faithful w hmem e0 (by rw [hl']; exact he0)
        rw [he0] at he1
        cases he1
        exact hp ((hfaithful (by rw [hl'])).symm.trans hwpath)
      rw [if_neg hp, latest_congr habout]
      exact h.fresh sid e e0 he he0
  case values =>
    intro path' u hu
    rw [hread] at hu
    split at hu
    · exact Option.some.inj hu ▸ hv
    · exact h.values path' u hu
  case updates =>
    intro u hu
    rcases List.mem_append.mp hu with hu | hu
    · exact h.updates u (List.mem_append_left _ hu)
    · rcases ht.mem u hu with hu | hu
      · rw [hu]
        exact hv
      · exact h.updates u (List.mem_append_right _ hu)

theorem flush (h : Coherent q r t sent us) :
    Coherent q { r with queued := [], flushScheduled := false } t sent (us ++ r.queued) :=
  { h with
    watching :=
      { h.watching with
        queued := fun _ hu => absurd hu List.not_mem_nil
        single := fun _ _ _ _ => Nat.zero_le 1 }
    coming := by
      intro u hu
      rcases List.mem_append.mp hu with hu | hu
      · exact h.coming u hu
      · exact h.held _ (h.watching.queued u hu)
    idle := by
      intro sid e he hr
      obtain ⟨hlast, hus⟩ := h.idle sid e he hr
      have hqueued : about sid r.queued = [] := about_eq_nil.mpr fun u hu hs =>
        Table.get?_eq_none.mp hr (hs ▸ h.watching.queued u hu)
      exact ⟨hlast, by rw [about_append, hus, hqueued, List.append_nil]⟩
    fresh := by
      intro sid e e' he he'
      rw [List.append_nil]
      exact h.fresh sid e e' he he'
    updates := by
      intro u hu
      rw [List.append_nil] at hu
      exact h.updates u hu }

theorem record {u : SubscriptionUpdate} (h : Coherent q r t sent (u :: us)) :
    Coherent (q.record u).2 r t sent us := by
  have hget := SubscriptionTable.get?_record q u
  have hsame := SubscriptionTable.record_same q u
  have hnext : (q.record u).2.nextSid = q.nextSid := by rw [hsame]
  have hsub : (q.record u).2.toSubscribe = q.toSubscribe := by rw [hsame]
  have hun : (q.record u).2.toUnsubscribe = q.toUnsubscribe := by rw [hsame]
  have hordered := h.ordered.record u
  have hview := SubscriptionTable.view_record q u
  have hasked := SubscriptionTable.asked_record q u
  generalize (q.record u).2 = q' at hget hnext hsub hun hordered hview hasked ⊢
  refine ⟨hordered, h.watching, ?once, ?held, ?wished, ?ended, ?coming, ?left, ?view, ?idle, ?fresh,
    h.values, fun v hv => h.updates v (List.mem_cons_of_mem u hv)⟩
  case once =>
    rw [hsub]
    exact h.once
  case held =>
    rw [hnext]
    exact h.held
  case wished =>
    rw [hnext]
    exact h.wished
  case ended =>
    rw [hnext, hun]
    exact h.ended
  case coming =>
    rw [hnext]
    exact fun v hv => h.coming v (List.mem_cons_of_mem u hv)
  case left =>
    intro sid hor
    rw [hun] at hor
    rw [hget, h.left sid hor, Option.map_none, ite_self]
  case view =>
    intro sid
    rw [hasked, hview]
    exact h.view sid
  case idle =>
    intro sid e he hr
    have hcons : ∀ {e0}, q.entries.get? sid = some e0 → u.sid ≠ sid := by
      intro e0 he0
      exact about_eq_nil.mp (h.idle sid e0 he0 hr).2 u List.mem_cons_self
    rw [hget] at he
    split at he
    · rename_i hs
      obtain ⟨e0, he0, -⟩ := Option.map_eq_some_iff.mp he
      exact absurd hs.symm (hcons he0)
    · have hidle := h.idle sid e he hr
      rwa [about_cons_other (hcons he)] at hidle
  case fresh =>
    intro sid e e' he he'
    rw [hget] at he
    split at he
    · rename_i hs
      obtain ⟨e0, he0, rfl⟩ := Option.map_eq_some_iff.mp he
      have hfresh := h.fresh sid e0 e' he0 he'
      rw [hs, List.cons_append, latest_cons] at hfresh
      rw [hs]
      exact hfresh
    · rename_i hs
      have habout : about sid (u :: us ++ r.queued) = about sid (us ++ r.queued) :=
        about_cons_other (Ne.symm hs) _
      rw [← latest_congr habout]
      exact h.fresh sid e e' he he'

/-! ## Connections -/

theorem cut (h : Coherent q r t sent us) :
    Coherent q.drain.2 (r.closeAll t).1 (r.closeAll t).2 [] [] where
  ordered :=
    { below := fun _ _ he => absurd he Table.get?_empty_ne
      unsent := fun _ _ he => absurd he Table.get?_empty_ne
      waiting := fun _ hm => absurd hm List.not_mem_nil
      bound := h.ordered.bound
      scheduled := fun hor => absurd rfl (hor.elim id id) }
  watching := h.watching.closeAll
  once := List.nodup_nil
  held := fun _ hm => absurd hm List.not_mem_nil
  wished := fun _ hm => absurd hm List.not_mem_nil
  ended := fun _ hm => absurd hm List.not_mem_nil
  coming := fun _ hm => absurd hm List.not_mem_nil
  left := fun _ _ => rfl
  view := fun _ => rfl
  idle := fun _ _ he => absurd he Table.get?_empty_ne
  fresh := fun _ _ _ he => absurd he Table.get?_empty_ne
  values := by
    intro path u hu
    have hread : (r.closeAll t).2.readValue path = t.readValue path := by
      rw [MemoryTree.readValue, MemoryTree.readValue]
      exact congrArg (Table.get? · path) (Registry.foldl_unwatch r.entries.values t).1
    rw [hread] at hu
    exact h.values path u hu
  updates := fun _ hm => absurd hm List.not_mem_nil

theorem connect (h : Coherent q r t sent us) (isOpen : Bool) :
    Coherent { q with isOpen } r t sent us :=
  { h with
    ordered := { h.ordered with }
    view := h.view }

/-! ## Quiet -/

/-- With nothing on its way the two agree, and the last values are those of the tree. -/
theorem settled (h : Coherent q r t [] []) (hqueued : r.queued = []) (hsub : q.toSubscribe = [])
    (hun : q.toUnsubscribe = []) (sid : Nat) : r.view sid = q.view sid ∧
      ∀ e, r.entries.get? sid = some e → q.last? sid = t.readValue e.path := by
  have hview : r.view sid = q.view sid := by
    have hview := h.view sid
    rwa [SubscriptionTable.asked_of_nil hsub hun] at hview
  refine ⟨hview, fun e' he' => ?_⟩
  cases he : q.entries.get? sid with
  | none =>
    rw [Registry.view, SubscriptionTable.view, he, he'] at hview
    cases hview
  | some e =>
    have hfresh := h.fresh sid e e' he he'
    rw [hqueued, List.append_nil, latest_nil] at hfresh
    rw [SubscriptionTable.last?, he, ← hfresh]
    rfl

end Coherent
end PeerLink
