import PeerLink.Proofs.Batching

/-! # A table of subscriptions over many turns

* `SubscriptionTable.First`: a number is new when it is given.
* `SubscriptionTable.Booked`: the invariant of a table, the flushes that wait, and what was noted.
* `SubscriptionTable.Booked.turns`: it holds after any turns.
-/

namespace PeerLink
set_option autoImplicit false

namespace SubscriptionTable

variable {q q' : SubscriptionTable} {sid : Nat} {a : Account}

/-! ## The invariant -/

/-- Nothing has been noted about a number when it is given. -/
def First (early : List DeskNote) (note : DeskNote) : Prop :=
  ∀ p handler, note = .given p handler →
    givenOf p.sid early = [] ∧ toldOf p.sid early = [] ∧ asksOf p.sid early = []

/-- What holds of a table with so many flushes waiting and so much noted of it. -/
structure Booked (q : SubscriptionTable) (n : Nat) (ns : List DeskNote) : Prop where
  ordered : q.Ordered
  distinct : q.entries.Distinct
  begins : q.toSubscribe.Nodup
  ends : q.toUnsubscribe.Nodup
  idle : q.isOpen = false →
    (∀ sid, q.entries.get? sid = none) ∧ q.toSubscribe = [] ∧ q.toUnsubscribe = []
  waiting : n = if q.flushScheduled then 1 else 0
  stands : ∀ sid, Stands q sid (Account.of sid ns)
  first : Each First ns

theorem Booked.start : Booked {} 0 [] where
  ordered := ⟨nofun, nofun, nofun, by decide, by simp⟩
  distinct := Table.distinct_nil
  begins := List.nodup_nil
  ends := List.nodup_nil
  idle := fun _ => ⟨fun _ => rfl, rfl, rfl⟩
  waiting := rfl
  stands := fun _ => .fresh rfl List.not_mem_nil
  first := Each.nil

variable {n n' : Nat} {ns ns' : List DeskNote}

theorem first_append (h : Each First ns)
    (hns : ∀ note ∈ ns', ∀ p handler, note ≠ .given p handler) :
    Each First (ns ++ ns') := by
  induction ns' using List.reverseRecOn with
  | nil =>
    rw [List.append_nil]
    exact h
  | append_singleton ns' note ih =>
    have hinit := ih fun m hm => hns m (List.mem_append_left _ hm)
    rw [← List.append_assoc]
    refine hinit.snoc ?_
    intro p handler hnote
    exact absurd hnote (hns note (by simp) p handler)

/-! ## Turns, one by one -/

theorem Account.add_silent (a : Account) (sid : Nat) (h : ∀ note ∈ ns, note.Silent) :
    a.add sid ns = a := by
  have hgiven : givenOf sid ns = [] := by
    refine List.filterMap_eq_nil_iff.mpr ?_
    intro note hnote
    have hsilent := h note hnote
    cases note with
    | given => exact hsilent.elim
    | sent | told | connected | disconnected => rfl
  have htold : toldOf sid ns = [] := by
    refine List.filterMap_eq_nil_iff.mpr ?_
    intro note hnote
    have hsilent := h note hnote
    cases note with
    | told e =>
      have hnone : e.sid? = none := hsilent
      rw [DeskNote.told?, hnone, if_neg (Option.some_ne_none sid).symm]
    | given | sent | connected | disconnected => rfl
  have hasks : asks ns = [] := by
    refine List.flatMap_eq_nil_iff.mpr ?_
    intro note hnote
    have hsilent := h note hnote
    cases note with
    | sent o => exact hsilent
    | given | told | connected | disconnected => rfl
  rw [add, hgiven, htold, asksOf, hasks]
  simp

theorem Booked.rests (h : q.Booked n ns) (hsilent : ∀ note ∈ ns', note.Silent) :
    q.Booked n (ns ++ ns') := by
  have hother : ∀ note ∈ ns', note ≠ .disconnected ∧ ∀ p handler, note ≠ .given p handler := by
    intro note hnote
    have := hsilent note hnote
    refine ⟨?_, ?_⟩
    · rintro rfl
      exact this
    · rintro p handler rfl
      exact this
  refine { h with stands := ?_, first := first_append h.first fun note hn => (hother note hn).2 }
  intro sid
  rw [Account.of_append sid ns fun note hn => (hother note hn).1, Account.add_silent _ _ hsilent]
  exact h.stands sid

theorem Booked.opens (h : q.Booked n ns) (link : Nat) :
    { q with isOpen := true }.Booked n (ns ++ [DeskNote.connected link]) where
  ordered := ⟨h.ordered.below, h.ordered.unsent, h.ordered.waiting, h.ordered.bound,
    h.ordered.scheduled⟩
  distinct := h.distinct
  begins := h.begins
  ends := h.ends
  idle := nofun
  waiting := h.waiting
  stands := by
    intro sid
    rw [Account.of_append sid ns (by simp)]
    have hadd : (Account.of sid ns).add sid [.connected link] = Account.of sid ns := by
      simp [Account.add, Account.of, givenOf, toldOf, asksOf, asks, DeskNote.given?, DeskNote.told?,
        DeskNote.wishes]
    rw [hadd]
    exact (h.stands sid).same rfl (Nat.le_refl _) Iff.rfl
  first := first_append h.first (by simp)

theorem Account.add_given (a : Account) (sid : Nat) (p : SubscribePath) (handler : Handler) :
    a.add sid [.given p handler] =
      if p.sid = sid then { a with given := a.given ++ [(p, handler)] } else a := by
  by_cases hp : p.sid = sid
  · simp [add, givenOf, toldOf, asksOf, asks, DeskNote.given?, DeskNote.told?, DeskNote.wishes, hp]
  · simp [add, givenOf, toldOf, asksOf, asks, DeskNote.given?, DeskNote.told?, DeskNote.wishes, hp]

theorem Account.add_told (a : Account) (sid : Nat) (e : HandlerEvent) :
    a.add sid [.told e] = if e.sid? = some sid then { a with told := a.told ++ [e] } else a := by
  by_cases he : e.sid? = some sid
  · simp [add, givenOf, toldOf, asksOf, asks, DeskNote.given?, DeskNote.told?, DeskNote.wishes, he]
  · simp [add, givenOf, toldOf, asksOf, asks, DeskNote.given?, DeskNote.told?, DeskNote.wishes, he]

/-- Nothing is known of the number that is given next. -/
theorem Stands.next_fresh (h : Stands q q.nextSid a) : a = ⟨[], [], [], []⟩ := by
  cases h with
  | fresh => rfl
  | waits used => exact absurd used (Nat.lt_irrefl _)
  | runs used => exact absurd used (Nat.lt_irrefl _)
  | leaves used => exact absurd used (Nat.lt_irrefl _)
  | past used => exact absurd used (Nat.lt_irrefl _)

theorem Booked.adds (h : q.Booked n ns) (path : String) (qos : Nat) (handler : Handler)
    (hopen : q.isOpen = true) (hleft : q.nextSid < wordBound) :
    (q.add path qos handler).2.2.Booked (n + if q.flushScheduled then 0 else 1)
      (ns ++ [DeskNote.given ⟨path, (q.add path qos handler).1, qos⟩ handler]) where
  ordered := h.ordered.add hleft path qos handler
  distinct := h.distinct.insert _ _
  begins := by
    have hnew : q.nextSid ∉ q.toSubscribe := by
      intro hmem
      obtain ⟨e, he⟩ := h.ordered.waiting _ hmem
      exact absurd (h.ordered.below _ e he) (Nat.lt_irrefl _)
    rw [h.ordered.toSubscribe_add]
    exact h.begins.append (List.nodup_singleton _) (List.disjoint_singleton.mpr hnew)
  ends := h.ends
  idle := by
    have hsame : (q.add path qos handler).2.2.isOpen = q.isOpen := rfl
    rw [hsame, hopen]
    nofun
  waiting := by
    have hflag : (q.add path qos handler).2.2.flushScheduled = true := rfl
    rw [h.waiting, hflag]
    cases q.flushScheduled <;> rfl
  stands := by
    intro sid
    have hstands := h.stands sid
    rw [Account.of_append sid ns (by simp), Account.add_given, h.ordered.add_fst]
    by_cases hsid : q.nextSid = sid
    · subst hsid
      rw [if_pos rfl]
      have hempty := hstands.next_fresh
      rw [hempty] at hstands ⊢
      exact hstands.add_own h.ordered rfl path qos handler
    · rw [if_neg hsid]
      refine hstands.same ?_ ?_ Iff.rfl
      · rw [h.ordered.get?_add, if_neg (Ne.symm hsid)]
      · rw [h.ordered.nextSid_add]
        exact Nat.le_succ _
  first := by
    refine h.first.snoc ?_
    intro p handler' heq
    obtain ⟨rfl, -⟩ := DeskNote.given.inj heq
    have hstands := h.stands q.nextSid
    have hempty := hstands.next_fresh
    rw [Account.of] at hempty
    obtain ⟨hgiven, htold, hasks, -⟩ := Account.mk.inj hempty
    show givenOf (q.add path qos handler).1 ns = [] ∧ toldOf (q.add path qos handler).1 ns = [] ∧
      asksOf (q.add path qos handler).1 ns = []
    rw [h.ordered.add_fst]
    exact ⟨hgiven, htold, hasks⟩

theorem Booked.isOpen_of_entry (h : q.Booked n ns) {e : Subscription}
    (he : q.entries.get? sid = some e) : q.isOpen = true := by
  by_contra hclosed
  have hnone := (h.idle (Bool.eq_false_iff.mpr hclosed)).1 sid
  rw [he] at hnone
  cases hnone

theorem Booked.not_leaving (h : q.Booked n ns) {e : Subscription}
    (he : q.entries.get? sid = some e) : sid ∉ q.toUnsubscribe := by
  have hstands := h.stands sid
  generalize Account.of sid ns = a at hstands
  cases hstands with
  | fresh _ still => exact still
  | waits _ _ _ still => exact still
  | runs _ _ _ still => exact still
  | leaves _ absent =>
    rw [he] at absent
    cases absent
  | past _ _ still => exact still

/-- The events of the other numbers stay as they were when one is told something. -/
theorem stands_told {e : HandlerEvent} (hsid : e.sid? = some sid)
    (h : ∀ s, Stands q s (Account.of s ns))
    (hown : Stands q' sid
      { Account.of sid ns with told := (Account.of sid ns).told ++ [e] })
    (hother : ∀ s, s ≠ sid → q'.entries.get? s = q.entries.get? s)
    (hnext : q.nextSid ≤ q'.nextSid)
    (hleave : ∀ s, s ≠ sid → (s ∈ q'.toUnsubscribe ↔ s ∈ q.toUnsubscribe)) :
    ∀ s, Stands q' s (Account.of s (ns ++ [.told e])) := by
  intro s
  rw [Account.of_append s ns (by simp), Account.add_told, hsid]
  by_cases hs : s = sid
  · rw [hs, if_pos rfl]
    exact hown
  · rw [if_neg fun heq => hs (Option.some.inj heq).symm]
    exact (h s).same (hother s hs) hnext (hleave s hs)

theorem Booked.drops (h : q.Booked n ns) {e : Subscription} (he : q.entries.get? sid = some e) :
    (q.remove sid).2.Booked (n + if e.sent && !q.flushScheduled then 1 else 0)
      (ns ++ [DeskNote.told (.ended e.handler sid)]) := by
  have hown := (h.stands sid).drop_own he
  have hother : ∀ s, s ≠ sid → (q.entries.erase sid).get? s = q.entries.get? s := by
    intro s hs
    rw [Table.get?_erase, if_neg hs]
  have hfirst : Each First (ns ++ [.told (.ended e.handler sid)]) := first_append h.first (by simp)
  have hopen := h.isOpen_of_entry he
  cases hsent : e.sent with
  | true =>
    have hordered := h.ordered.remove_of_sent he hsent
    rw [remove_of_sent he hsent] at hown hordered ⊢
    refine ⟨hordered, h.distinct.erase sid, h.begins, ?_, ?_, ?_, ?_, hfirst⟩
    · refine h.ends.append (List.nodup_singleton sid) ?_
      exact List.disjoint_singleton.mpr (h.not_leaving he)
    · intro hclosed
      exact absurd (hopen.symm.trans hclosed) nofun
    · rw [h.waiting]
      cases q.flushScheduled <;> rfl
    · refine stands_told rfl h.stands hown hother (Nat.le_refl _) ?_
      intro s hs
      rw [List.mem_append, List.mem_singleton, or_iff_left hs]
  | false =>
    have hordered := h.ordered.remove_of_unsent he hsent
    rw [remove_of_unsent he hsent] at hown hordered ⊢
    refine ⟨hordered, h.distinct.erase sid, h.begins.filter _, h.ends, ?_, h.waiting, ?_, hfirst⟩
    · intro hclosed
      exact absurd (hopen.symm.trans hclosed) nofun
    · exact stands_told rfl h.stands hown hother (Nat.le_refl _) fun s _ => Iff.rfl

theorem distinct_record (h : q.entries.Distinct) (u : SubscriptionUpdate) :
    (q.record u).2.entries.Distinct := by
  unfold record
  split
  · exact h
  · exact Table.Distinct.modify h _ _

theorem Booked.hears (h : q.Booked n ns) {u : SubscriptionUpdate} {e : Subscription}
    (he : q.entries.get? u.sid = some e) :
    (q.record u).2.Booked n (ns ++ [DeskNote.told (.update e.handler u)]) := by
  have hown := (h.stands u.sid).hear_own he
  have hordered := h.ordered.record u
  have hdistinct := distinct_record h.distinct u
  have hget : ∀ s, s ≠ u.sid → (q.record u).2.entries.get? s = q.entries.get? s := by
    intro s hs
    rw [get?_record, if_neg hs]
  rw [record_same] at hown hordered hdistinct hget ⊢
  refine ⟨hordered, hdistinct, h.begins, h.ends, ?_, h.waiting, ?_, ?_⟩
  · intro hclosed
    exact absurd ((h.isOpen_of_entry he).symm.trans hclosed) nofun
  · exact stands_told rfl h.stands hown hget (Nat.le_refl _) fun s _ => Iff.rfl
  · exact first_append h.first (by simp)

theorem distinct_foldl_modify {α : Type} (f : α → α) :
    ∀ (sids : List Nat) (es : Table Nat α), es.Distinct →
      (sids.foldl (fun es s => es.modify s f) es).Distinct
  | [], _, h => h
  | s :: sids, _, h => distinct_foldl_modify f sids _ (h.modify s f)

theorem Account.add_sent (a : Account) (sid : Nat) (h : ∀ note ∈ ns, ∃ o, note = .sent o) :
    a.add sid ns = { a with
      asked := a.asked ++ (PeerLink.asks ns).filter (·.sid = sid)
      here := a.here ++ (PeerLink.asks ns).filter (·.sid = sid) } := by
  have hgiven : givenOf sid ns = [] := by
    refine List.filterMap_eq_nil_iff.mpr ?_
    intro note hnote
    obtain ⟨o, rfl⟩ := h note hnote
    rfl
  have htold : toldOf sid ns = [] := by
    refine List.filterMap_eq_nil_iff.mpr ?_
    intro note hnote
    obtain ⟨o, rfl⟩ := h note hnote
    rfl
  rw [add, hgiven, htold, List.append_nil, List.append_nil]
  rfl

theorem Booked.asks {m : Nat} (h : q.Booked (m + 1) ns)
    (hsent : ∀ note ∈ ns', ∃ o, note = .sent o) (hbatch : PeerLink.asks ns' = q.next) :
    q.takeBatch.2.Booked m (ns ++ ns') where
  ordered := h.ordered.takeBatch
  distinct := distinct_foldl_modify _ _ _ h.distinct
  begins := List.nodup_nil
  ends := List.nodup_nil
  idle := by
    intro hclosed
    obtain ⟨hnone, hsub, -⟩ := h.idle hclosed
    refine ⟨?_, rfl, rfl⟩
    intro sid
    rw [get?_takeBatch, hsub, if_neg List.not_mem_nil]
    exact hnone sid
  waiting := by
    have hwaiting := h.waiting
    have hflag : q.takeBatch.2.flushScheduled = false := rfl
    rw [hflag, if_neg Bool.false_ne_true]
    split at hwaiting <;> omega
  stands := by
    intro sid
    have hother : ∀ note ∈ ns', note ≠ .disconnected := by
      intro note hnote
      obtain ⟨o, rfl⟩ := hsent note hnote
      nofun
    rw [Account.of_append sid ns hother, Account.add_sent _ _ hsent, hbatch]
    exact (h.stands sid).flush h.ordered h.begins h.ends
  first := by
    refine first_append h.first ?_
    intro note hnote
    obtain ⟨o, rfl⟩ := hsent note hnote
    nofun

theorem Account.of_disconnected (sid : Nat) (ns : List DeskNote) :
    Account.of sid (ns ++ [.disconnected]) = { Account.of sid ns with here := [] } := by
  rw [of, DeskNote.latest_disconnected, givenOf_append, toldOf_append, asksOf_append]
  simp [of, givenOf, toldOf, asksOf, PeerLink.asks, DeskNote.given?, DeskNote.told?,
    DeskNote.wishes]

theorem mem_endings {note : DeskNote} (h : note ∈ q.endings) : ∃ e, note = .told e := by
  obtain ⟨e, -, rfl⟩ := List.mem_map.mp h
  exact ⟨_, rfl⟩

theorem Account.add_endings (a : Account) (h : q.entries.Distinct) (sid : Nat) :
    a.add sid q.endings = { a with told := a.told ++ q.endingOf sid } := by
  have hgiven : givenOf sid q.endings = [] := by
    refine List.filterMap_eq_nil_iff.mpr ?_
    intro note hnote
    obtain ⟨e, rfl⟩ := mem_endings hnote
    rfl
  have hasks : PeerLink.asks q.endings = [] := by
    refine List.flatMap_eq_nil_iff.mpr ?_
    intro note hnote
    obtain ⟨e, rfl⟩ := mem_endings hnote
    rfl
  rw [add, hgiven, toldOf_endings h, asksOf, hasks]
  simp

theorem Booked.closes (h : q.Booked n ns) (hsilent : ∀ note ∈ ns', note.Silent) :
    q.drain.2.Booked n (ns ++ .disconnected :: (ns' ++ q.endings)) where
  ordered := ⟨nofun, nofun, nofun, h.ordered.bound, by simp [drain]⟩
  distinct := Table.distinct_nil
  begins := List.nodup_nil
  ends := List.nodup_nil
  idle := fun _ => ⟨fun _ => rfl, rfl, rfl⟩
  waiting := h.waiting
  stands := by
    intro sid
    have hone : ∀ note ∈ ns', note ≠ .disconnected := by
      rintro note hnote rfl
      exact hsilent _ hnote
    have htwo : ∀ note ∈ q.endings, note ≠ .disconnected := by
      intro note hnote
      obtain ⟨e, rfl⟩ := mem_endings hnote
      intro heq
      cases heq
    rw [← List.singleton_append, ← List.append_assoc, ← List.append_assoc,
      Account.of_append sid _ htwo, Account.of_append sid _ hone, Account.of_disconnected,
      Account.add_silent _ _ hsilent, Account.add_endings _ h.distinct]
    exact (h.stands sid).close
  first := by
    refine first_append h.first ?_
    intro note hnote p handler
    rintro rfl
    rcases List.mem_cons.mp hnote with heq | hmem
    · cases heq
    · rcases List.mem_append.mp hmem with hmem | hmem
      · exact hsilent _ hmem
      · obtain ⟨e, heq⟩ := mem_endings hmem
        cases heq

theorem Booked.turn (h : q.Booked n ns) (hturn : Turn q n ns' q' n') :
    q'.Booked n' (ns ++ ns') := by
  cases hturn with
  | rests silent => exact h.rests silent
  | opens link => exact h.opens link
  | adds path qos handler isOpen left => exact h.adds path qos handler isOpen left
  | drops entry => exact h.drops entry
  | hears entry => exact h.hears entry
  | asks waiting sent batch =>
    subst waiting
    exact h.asks sent batch
  | closes silent => exact h.closes silent

theorem Booked.turns (h : q.Booked n ns) (hturns : Turns q n ns' q' n') :
    q'.Booked n' (ns ++ ns') := by
  induction hturns with
  | refl =>
    rw [List.append_nil]
    exact h
  | tail _ turn ih =>
    rw [← List.append_assoc]
    exact ih.turn turn

end SubscriptionTable
end PeerLink
