import Mathlib.Data.List.Induction
import PeerLink.Requester
import PeerLink.Proofs.Histories
import PeerLink.Proofs.Wishes

/-! # Subscriptions that travel in batches

A subscription is given a number, asked for with the next batch, hears values, and ends once.

* `DeskNote`: what is noted of a requester; the history of one number is read off the notes.
* `SubscriptionTable.Turn`: all that can become of the table, with what is noted of it.
* `SubscriptionTable.Stands`: how far a number is on its way, by the table and by the history.
-/

namespace PeerLink
set_option autoImplicit false

/-! ## Notes -/

/-- The subscription that an event is about. -/
def HandlerEvent.sid? : HandlerEvent → Option Nat
  | .update _ u => some u.sid
  | .ended _ sid => some sid
  | .response .. | .failed .. | .closed .. => none

/-- What a request asks of a registry. -/
def Message.wishes : Message → List Wish
  | .request r =>
    match r.method with
    | .subscribe => r.paths.map .begins
    | .unsubscribe => r.sids.map .ends
    | _ => []
  | _ => []

inductive DeskNote
  | given (p : SubscribePath) (handler : Handler)
  | sent (o : Outgoing)
  | told (e : HandlerEvent)
  | connected (link : Nat)
  | disconnected

namespace DeskNote

def wishes : DeskNote → List Wish
  | .sent o => o.message.wishes
  | _ => []

def given? (sid : Nat) : DeskNote → Option (SubscribePath × Handler)
  | .given p handler => if p.sid = sid then some (p, handler) else none
  | _ => none

def told? (sid : Nat) : DeskNote → Option HandlerEvent
  | .told e => if e.sid? = some sid then some e else none
  | _ => none

/-- It is about no subscription. -/
def Silent : DeskNote → Prop
  | .sent o => o.message.wishes = []
  | .told e => e.sid? = none
  | _ => False

/-- What has been noted since the latest disconnect. -/
def latest (ns : List DeskNote) : List DeskNote :=
  ns.foldl (fun acc n => match n with
    | .disconnected => []
    | n => acc ++ [n]) []

theorem latest_snoc (ns : List DeskNote) {n : DeskNote} (h : n ≠ .disconnected) :
    latest (ns ++ [n]) = latest ns ++ [n] := by
  rw [latest, List.foldl_append]
  cases n with
  | disconnected => exact absurd rfl h
  | given | sent | told | connected => rfl

theorem latest_disconnected (ns : List DeskNote) : latest (ns ++ [.disconnected]) = [] := by
  rw [latest, List.foldl_append]
  rfl

theorem latest_append (ns : List DeskNote) {ns' : List DeskNote}
    (h : ∀ n ∈ ns', n ≠ .disconnected) :
    latest (ns ++ ns') = latest ns ++ ns' := by
  induction ns' using List.reverseRecOn with
  | nil => rw [List.append_nil, List.append_nil]
  | append_singleton ns' n ih =>
    have hinit := ih fun m hm => h m (List.mem_append_left _ hm)
    rw [← List.append_assoc, latest_snoc _ (h n (by simp)), hinit, List.append_assoc]

end DeskNote

/-- What was asked of the other peer. -/
def asks (ns : List DeskNote) : List Wish := ns.flatMap (·.wishes)

def asksOf (sid : Nat) (ns : List DeskNote) : List Wish := (asks ns).filter (·.sid = sid)

def givenOf (sid : Nat) (ns : List DeskNote) : List (SubscribePath × Handler) :=
  ns.filterMap (·.given? sid)

def toldOf (sid : Nat) (ns : List DeskNote) : List HandlerEvent := ns.filterMap (·.told? sid)

theorem asksOf_append (sid : Nat) (ns ns' : List DeskNote) :
    asksOf sid (ns ++ ns') = asksOf sid ns ++ asksOf sid ns' := by
  rw [asksOf, asks, List.flatMap_append, List.filter_append]
  rfl

theorem givenOf_append (sid : Nat) (ns ns' : List DeskNote) :
    givenOf sid (ns ++ ns') = givenOf sid ns ++ givenOf sid ns' := List.filterMap_append

theorem toldOf_append (sid : Nat) (ns ns' : List DeskNote) :
    toldOf sid (ns ++ ns') = toldOf sid ns ++ toldOf sid ns' := List.filterMap_append

/-! ## Replay -/

/-- The subscriptions that a list of wishes leaves, with their paths and qualities. -/
def replay (ws : List Wish) : Table Nat (String × Nat) :=
  ws.foldl (fun t w => match w with
    | .begins p => t.insert p.sid (p.path, p.qos)
    | .ends sid => t.erase sid) {}

theorem get?_replay_snoc_other (ws : List Wish) {w : Wish} {sid : Nat} (h : w.sid ≠ sid) :
    (replay (ws ++ [w])).get? sid = (replay ws).get? sid := by
  rw [replay, List.foldl_append]
  cases w with
  | begins p => exact (Table.get?_insert _ _ _ _).trans (if_neg (Ne.symm h))
  | ends s => exact (Table.get?_erase _ _ _).trans (if_neg (Ne.symm h))

theorem get?_replay_snoc (ws ws' : List Wish) {w : Wish} {sid : Nat} (h : w.sid = sid) :
    (replay (ws ++ [w])).get? sid = (replay (ws' ++ [w])).get? sid := by
  rw [replay, replay, List.foldl_append, List.foldl_append]
  cases w with
  | begins p =>
    have hsid : sid = p.sid := h.symm
    simp only [List.foldl_cons, List.foldl_nil, Table.get?_insert, if_pos hsid]
  | ends s =>
    have hsid : sid = s := h.symm
    simp only [List.foldl_cons, List.foldl_nil, Table.get?_erase, if_pos hsid]

/-- What is left of a number depends on the wishes about it. -/
theorem get?_replay_filter (ws : List Wish) (sid : Nat) :
    (replay ws).get? sid = (replay (ws.filter (·.sid = sid))).get? sid := by
  induction ws using List.reverseRecOn with
  | nil => rfl
  | append_singleton ws w ih =>
    rw [List.filter_append]
    by_cases hw : w.sid = sid
    · rw [List.filter_cons_of_pos (by simpa using hw), List.filter_nil]
      exact get?_replay_snoc _ _ hw
    · rw [List.filter_cons_of_neg (by simpa using hw), List.filter_nil, List.append_nil,
        get?_replay_snoc_other _ hw]
      exact ih

namespace SubscriptionTable

/-! ## Turns -/

/-- What is noted when subscriptions end with their connection. -/
def endings (q : SubscriptionTable) : List DeskNote :=
  q.drain.1.map fun e => .told (.ended e.2 e.1)

/-- All that can become of a table, what is noted of it, and how many flushes wait then. -/
inductive Turn (q : SubscriptionTable) (n : Nat) : List DeskNote → SubscriptionTable → Nat → Prop
  | rests {ns : List DeskNote} (silent : ∀ note ∈ ns, note.Silent) : Turn q n ns q n
  | opens (link : Nat) : Turn q n [.connected link] { q with isOpen := true } n
  | adds (path : String) (qos : Nat) (handler : Handler) (isOpen : q.isOpen = true)
      (left : q.nextSid < wordBound) :
      Turn q n [.given ⟨path, (q.add path qos handler).1, qos⟩ handler]
        (q.add path qos handler).2.2 (n + if q.flushScheduled then 0 else 1)
  | drops {sid : Nat} {e : Subscription} (entry : q.entries.get? sid = some e) :
      Turn q n [.told (.ended e.handler sid)] (q.remove sid).2
        (n + if e.sent && !q.flushScheduled then 1 else 0)
  | hears {u : SubscriptionUpdate} {e : Subscription} (entry : q.entries.get? u.sid = some e) :
      Turn q n [.told (.update e.handler u)] (q.record u).2 n
  | asks {ns : List DeskNote} {m : Nat} (waiting : n = m + 1)
      (sent : ∀ note ∈ ns, ∃ o, note = .sent o)
      (batch : PeerLink.asks ns = q.next) : Turn q n ns q.takeBatch.2 m
  | closes {ns : List DeskNote} (silent : ∀ note ∈ ns, note.Silent) :
      Turn q n (.disconnected :: (ns ++ q.endings)) q.drain.2 n

inductive Turns (q : SubscriptionTable) (n : Nat) : List DeskNote → SubscriptionTable → Nat → Prop
  | refl : Turns q n [] q n
  | tail {ns ns' : List DeskNote} {q' q'' : SubscriptionTable} {n' n'' : Nat}
      (h : Turns q n ns q' n')
      (turn : Turn q' n' ns' q'' n'') : Turns q n (ns ++ ns') q'' n''

theorem Turns.trans {q q' q'' : SubscriptionTable} {n n' n'' : Nat} {ns ns' : List DeskNote}
    (h : Turns q n ns q' n') (h' : Turns q' n' ns' q'' n'') : Turns q n (ns ++ ns') q'' n'' := by
  induction h' with
  | refl =>
    rw [List.append_nil]
    exact h
  | tail _ turn ih =>
    rw [← List.append_assoc]
    exact ih.tail turn

theorem Turn.turns {q q' : SubscriptionTable} {n n' : Nat} {ns : List DeskNote}
    (h : Turn q n ns q' n') : Turns q n ns q' n' := .tail .refl h

/-! ## One number -/

/-- The history of a number: to whom it was given, what its handler was told, what was asked for it,
and what of that since the latest disconnect. -/
structure Account where
  given : List (SubscribePath × Handler)
  told : List HandlerEvent
  asked : List Wish
  here : List Wish

def Account.of (sid : Nat) (ns : List DeskNote) : Account :=
  ⟨givenOf sid ns, toldOf sid ns, asksOf sid ns, asksOf sid (DeskNote.latest ns)⟩

def Account.add (a : Account) (sid : Nat) (ns : List DeskNote) : Account :=
  ⟨a.given ++ givenOf sid ns, a.told ++ toldOf sid ns, a.asked ++ asksOf sid ns,
    a.here ++ asksOf sid ns⟩

theorem Account.of_append (sid : Nat) (ns : List DeskNote) {ns' : List DeskNote}
    (h : ∀ n ∈ ns', n ≠ .disconnected) : of sid (ns ++ ns') = (of sid ns).add sid ns' := by
  rw [of, givenOf_append, toldOf_append, asksOf_append, DeskNote.latest_append ns h, asksOf_append]
  rfl

/-- How far a number is on its way. -/
inductive Stands (q : SubscriptionTable) (sid : Nat) : Account → Prop
  | fresh (absent : q.entries.get? sid = none) (still : sid ∉ q.toUnsubscribe) :
      Stands q sid ⟨[], [], [], []⟩
  | waits {e : Subscription} {us : List SubscriptionUpdate} (used : sid < q.nextSid)
      (entry : q.entries.get? sid = some e) (unsent : e.sent = false)
      (still : sid ∉ q.toUnsubscribe) (own : ∀ u ∈ us, u.sid = sid) :
      Stands q sid ⟨[(⟨e.path, sid, e.qos⟩, e.handler)], us.map (.update e.handler), [], []⟩
  | runs {e : Subscription} {us : List SubscriptionUpdate} (used : sid < q.nextSid)
      (entry : q.entries.get? sid = some e) (sent : e.sent = true)
      (still : sid ∉ q.toUnsubscribe) (own : ∀ u ∈ us, u.sid = sid) :
      Stands q sid ⟨[(⟨e.path, sid, e.qos⟩, e.handler)], us.map (.update e.handler),
        [.begins ⟨e.path, sid, e.qos⟩], [.begins ⟨e.path, sid, e.qos⟩]⟩
  | leaves {p : SubscribePath} {handler : Handler} {us : List SubscriptionUpdate}
      (used : sid < q.nextSid) (absent : q.entries.get? sid = none)
      (going : sid ∈ q.toUnsubscribe) (own : ∀ u ∈ us, u.sid = sid) (number : p.sid = sid) :
      Stands q sid ⟨[(p, handler)], us.map (.update handler) ++ [.ended handler sid],
        [.begins p], [.begins p]⟩
  | past {p : SubscribePath} {handler : Handler} {us : List SubscriptionUpdate}
      {asked here : List Wish} (used : sid < q.nextSid) (absent : q.entries.get? sid = none)
      (still : sid ∉ q.toUnsubscribe) (own : ∀ u ∈ us, u.sid = sid) (number : p.sid = sid)
      (ever : asked = [] ∨ asked = [.begins p] ∨ asked = [.begins p, .ends sid])
      (now : here = [] ∨ here = [.begins p, .ends sid] ∧ here = asked) :
      Stands q sid ⟨[(p, handler)], us.map (.update handler) ++ [.ended handler sid], asked, here⟩

variable {q q' : SubscriptionTable} {sid : Nat} {a : Account}

/-- What changes nothing about a number leaves it where it is. -/
theorem Stands.same (h : Stands q sid a) (hget : q'.entries.get? sid = q.entries.get? sid)
    (hnext : q.nextSid ≤ q'.nextSid) (hleave : sid ∈ q'.toUnsubscribe ↔ sid ∈ q.toUnsubscribe) :
    Stands q' sid a := by
  cases h with
  | fresh absent still =>
    exact .fresh (hget.trans absent) (mt hleave.mp still)
  | waits used entry unsent still own =>
    exact .waits (Nat.lt_of_lt_of_le used hnext) (hget.trans entry) unsent (mt hleave.mp still) own
  | runs used entry sent still own =>
    exact .runs (Nat.lt_of_lt_of_le used hnext) (hget.trans entry) sent (mt hleave.mp still) own
  | leaves used absent going own number =>
    exact .leaves (Nat.lt_of_lt_of_le used hnext) (hget.trans absent) (hleave.mpr going) own number
  | past used absent still own number ever now =>
    exact .past (Nat.lt_of_lt_of_le used hnext) (hget.trans absent) (mt hleave.mp still) own number
      ever now

theorem Stands.add_own (h : Stands q sid a) (hq : q.Ordered) (hsid : sid = q.nextSid)
    (path : String) (qos : Nat) (handler : Handler) :
    Stands (q.add path qos handler).2.2 sid { a with given := [(⟨path, sid, qos⟩, handler)] } := by
  have hused : ¬ sid < q.nextSid := by
    rw [hsid]
    exact Nat.lt_irrefl _
  cases h with
  | fresh absent still =>
    have hnext : sid < (q.add path qos handler).2.2.nextSid := by
      rw [hq.nextSid_add, hsid]
      exact Nat.lt_succ_self _
    have hget : (q.add path qos handler).2.2.entries.get? sid = some { path, qos, handler } := by
      rw [hq.get?_add, if_pos hsid]
    exact Stands.waits hnext hget rfl still (List.forall_mem_nil _)
  | waits used => exact absurd used hused
  | runs used => exact absurd used hused
  | leaves used => exact absurd used hused
  | past used => exact absurd used hused

theorem Stands.drop_own (h : Stands q sid a) {e : Subscription}
    (he : q.entries.get? sid = some e) :
    Stands (q.remove sid).2 sid { a with told := a.told ++ [.ended e.handler sid] } := by
  have herased : (q.entries.erase sid).get? sid = none := by rw [Table.get?_erase, if_pos rfl]
  cases h with
  | fresh absent =>
    rw [he] at absent
    cases absent
  | @waits e' us used entry unsent still own =>
    obtain rfl := Option.some.inj (entry.symm.trans he)
    rw [remove_of_unsent he unsent]
    exact .past used herased still own rfl (.inl rfl) (.inl rfl)
  | @runs e' us used entry sent still own =>
    obtain rfl := Option.some.inj (entry.symm.trans he)
    rw [remove_of_sent he sent]
    refine .leaves used herased ?_ own rfl
    exact List.mem_append_right _ (List.mem_singleton_self sid)
  | leaves _ absent =>
    rw [he] at absent
    cases absent
  | past _ absent =>
    rw [he] at absent
    cases absent

theorem Stands.hear_own {u : SubscriptionUpdate} (h : Stands q u.sid a) {e : Subscription}
    (he : q.entries.get? u.sid = some e) :
    Stands (q.record u).2 u.sid { a with told := a.told ++ [.update e.handler u] } := by
  have hsame := record_same q u
  have hentry : (q.record u).2.entries.get? u.sid = some { e with last := some u.update } := by
    rw [get?_record, if_pos rfl, he]
    rfl
  have hnext : (q.record u).2.nextSid = q.nextSid := by rw [hsame]
  have hleave : (q.record u).2.toUnsubscribe = q.toUnsubscribe := by rw [hsame]
  have hown : ∀ {us : List SubscriptionUpdate}, (∀ v ∈ us, v.sid = u.sid) →
      ∀ v ∈ us ++ [u], v.sid = u.sid :=
    fun h => List.forall_mem_append.mpr ⟨h, List.forall_mem_singleton.mpr rfl⟩
  cases h with
  | fresh absent =>
    rw [he] at absent
    cases absent
  | @waits e' us used entry unsent still own =>
    obtain rfl := Option.some.inj (entry.symm.trans he)
    have h := Stands.waits (hnext ▸ used) hentry unsent (hleave ▸ still) (hown own)
    rwa [List.map_append] at h
  | @runs e' us used entry sent still own =>
    obtain rfl := Option.some.inj (entry.symm.trans he)
    have h := Stands.runs (hnext ▸ used) hentry sent (hleave ▸ still) (hown own)
    rwa [List.map_append] at h
  | leaves _ absent =>
    rw [he] at absent
    cases absent
  | past _ absent =>
    rw [he] at absent
    cases absent

/-! ### Batches -/

theorem filter_ends {sids : List Nat} (h : sids.Nodup) (sid : Nat) :
    (sids.map Wish.ends).filter (·.sid = sid) = if sid ∈ sids then [.ends sid] else [] := by
  induction sids with
  | nil => rfl
  | cons s sids ih =>
    obtain ⟨hnot, hnodup⟩ := List.nodup_cons.mp h
    rw [List.map_cons]
    by_cases hs : s = sid
    · subst hs
      rw [List.filter_cons_of_pos (by simp [Wish.sid]), ih hnodup, if_neg hnot,
        if_pos List.mem_cons_self]
    · rw [List.filter_cons_of_neg (by simp [Wish.sid, hs]), ih hnodup]
      simp [Ne.symm hs]

theorem filter_begins (q : SubscriptionTable) {sids : List Nat} (h : sids.Nodup) (sid : Nat) :
    ((sids.filterMap q.batchEntry).map Wish.begins).filter (·.sid = sid) =
      if sid ∈ sids then ((q.batchEntry sid).map Wish.begins).toList else [] := by
  induction sids with
  | nil => rfl
  | cons s sids ih =>
    obtain ⟨hnot, hnodup⟩ := List.nodup_cons.mp h
    have hrest := ih hnodup
    cases hb : q.batchEntry s with
    | none =>
      rw [List.filterMap_cons_none hb, hrest]
      by_cases hs : sid = s
      · subst hs
        rw [hb, if_neg hnot, Option.map_none, Option.toList_none, ite_self]
      · simp [hs]
    | some p =>
      have hsid : p.sid = s := by
        obtain ⟨e, -, rfl⟩ := Option.map_eq_some_iff.mp hb
        rfl
      rw [List.filterMap_cons_some hb, List.map_cons]
      by_cases hs : s = sid
      · subst hs
        rw [List.filter_cons_of_pos (by simp [Wish.sid, hsid]), hrest, if_neg hnot,
          if_pos List.mem_cons_self, hb, Option.map_some, Option.toList_some]
      · rw [List.filter_cons_of_neg (by simp [Wish.sid, hsid, hs]), hrest]
        simp [Ne.symm hs]

theorem Stands.flush (h : Stands q sid a) (hq : q.Ordered) (hbegin : q.toSubscribe.Nodup)
    (hend : q.toUnsubscribe.Nodup) :
    Stands q.takeBatch.2 sid
      { a with
        asked := a.asked ++ q.next.filter (·.sid = sid)
        here := a.here ++ q.next.filter (·.sid = sid) } := by
  have hget := get?_takeBatch q sid
  have hnone : sid ∉ q.takeBatch.2.toUnsubscribe := List.not_mem_nil
  rw [next, List.filter_append, filter_begins q hbegin, filter_ends hend]
  -- a number without an entry is not about to begin
  have hout : q.entries.get? sid = none → sid ∉ q.toSubscribe := by
    intro habsent hmem
    obtain ⟨e, he⟩ := hq.waiting sid hmem
    rw [habsent] at he
    cases he
  cases h with
  | fresh absent still =>
    rw [if_neg (hout absent), if_neg still]
    rw [if_neg (hout absent), absent] at hget
    exact .fresh hget hnone
  | @waits e us used entry unsent still own =>
    have hmem : sid ∈ q.toSubscribe := (hq.unsent sid e entry).mpr unsent
    have hb : q.batchEntry sid = some ⟨e.path, sid, e.qos⟩ := by
      rw [batchEntry, entry, Option.map_some]
    rw [if_pos hmem, if_neg still, hb]
    rw [if_pos hmem, entry] at hget
    exact .runs (e := { e with sent := true }) used hget rfl hnone own
  | @runs e us used entry sent still own =>
    have hmem : sid ∉ q.toSubscribe := by
      rw [hq.unsent sid e entry, sent]
      exact Bool.noConfusion
    rw [if_neg hmem, if_neg still]
    rw [if_neg hmem, entry] at hget
    exact .runs used hget sent hnone own
  | leaves used absent going own number =>
    rw [if_neg (hout absent), if_pos going]
    rw [if_neg (hout absent), absent] at hget
    exact .past used hget hnone own number (.inr (.inr rfl)) (.inr ⟨rfl, rfl⟩)
  | past used absent still own number ever now =>
    rw [if_neg (hout absent), if_neg still, List.append_nil, List.append_nil, List.append_nil]
    rw [if_neg (hout absent), absent] at hget
    exact .past used hget hnone own number ever now

/-! ### The end of a connection -/

/-- What the handler of a number is told when its connection ends. -/
def endingOf (q : SubscriptionTable) (sid : Nat) : List HandlerEvent :=
  ((q.entries.get? sid).map fun e => .ended e.handler sid).toList

theorem toldOf_entries {es : List (Nat × Subscription)} (h : (es.map Prod.fst).Nodup) (sid : Nat) :
    toldOf sid (es.map fun e => .told (.ended e.2.handler e.1)) =
      endingOf { entries := ⟨es⟩ } sid := by
  induction es with
  | nil => rfl
  | cons e es ih =>
    obtain ⟨hnot, hnodup⟩ := List.nodup_cons.mp h
    have hrest := ih hnodup
    have hcons : ∀ n ns, toldOf sid (n :: ns) = (n.told? sid).toList ++ toldOf sid ns := by
      intro n ns
      rw [← List.singleton_append, toldOf_append]
      cases hn : n.told? sid with
      | none => simp [toldOf, hn]
      | some e => simp [toldOf, hn]
    rw [List.map_cons, hcons, hrest, endingOf, endingOf, Table.get?_cons]
    by_cases he : sid = e.1
    · have hlater : (Table.mk es).get? sid = none := by
        rw [Table.get?_eq_none, he]
        exact hnot
      rw [if_pos he, hlater, DeskNote.told?, HandlerEvent.sid?, he, if_pos rfl]
      rfl
    · have hother : (DeskNote.told (.ended e.2.handler e.1)).told? sid = none := by
        rw [DeskNote.told?, HandlerEvent.sid?, if_neg fun heq => he (Option.some.inj heq).symm]
      rw [if_neg he, hother]
      rfl

theorem toldOf_endings (h : q.entries.Distinct) (sid : Nat) :
    toldOf sid q.endings = q.endingOf sid := by
  have hsame : q.endings =
      (q.entries.toSorted (· ≤ ·)).map fun e => .told (.ended e.2.handler e.1) := by
    rw [endings, drain, List.map_map]
    rfl
  have hperm : (toldOf sid q.endings).Perm
      (toldOf sid (q.entries.entries.map fun e => .told (.ended e.2.handler e.1))) := by
    rw [hsame]
    exact ((List.mergeSort_perm _ _).map _).filterMap _
  rw [toldOf_entries h] at hperm
  have hsingle : endingOf { entries := ⟨q.entries.entries⟩ } sid = q.endingOf sid := rfl
  rw [hsingle, endingOf] at hperm
  rw [endingOf]
  cases hget : q.entries.get? sid with
  | none =>
    rw [hget] at hperm
    exact hperm.eq_nil
  | some e =>
    rw [hget] at hperm
    exact hperm.eq_singleton

theorem Stands.close (h : Stands q sid a) :
    Stands q.drain.2 sid { a with told := a.told ++ q.endingOf sid, here := [] } := by
  have hget : q.drain.2.entries.get? sid = none := rfl
  have hout : sid ∉ q.drain.2.toUnsubscribe := List.not_mem_nil
  cases h with
  | fresh absent still =>
    rw [endingOf, absent]
    exact .fresh hget hout
  | waits used entry unsent still own =>
    rw [endingOf, entry]
    exact .past used hget hout own rfl (.inl rfl) (.inl rfl)
  | runs used entry sent still own =>
    rw [endingOf, entry]
    exact .past used hget hout own rfl (.inr (.inl rfl)) (.inl rfl)
  | leaves used absent going own number =>
    rw [endingOf, absent, Option.map_none, Option.toList_none, List.append_nil]
    exact .past used hget hout own number (.inr (.inl rfl)) (.inl rfl)
  | past used absent still own number ever now =>
    rw [endingOf, absent, Option.map_none, Option.toList_none, List.append_nil]
    exact .past used hget hout own number ever (.inl rfl)

/-! ### Readings -/

variable {p : SubscribePath} {handler : Handler}

theorem Stands.heard (h : Stands q sid a) (hgiven : (p, handler) ∈ a.given) :
    ∃ us : List SubscriptionUpdate, (∀ u ∈ us, u.sid = sid) ∧
      ((∃ e, q.entries.get? sid = some e) → a.told = us.map (.update handler)) ∧
      ((¬ ∃ e, q.entries.get? sid = some e) →
        a.told = us.map (.update handler) ++ [.ended handler sid]) := by
  cases h with
  | fresh => cases hgiven
  | waits used entry unsent still own =>
    obtain ⟨-, rfl⟩ := Prod.mk.inj (List.mem_singleton.mp hgiven)
    exact ⟨_, own, fun _ => rfl, fun hnot => absurd ⟨_, entry⟩ hnot⟩
  | runs used entry sent still own =>
    obtain ⟨-, rfl⟩ := Prod.mk.inj (List.mem_singleton.mp hgiven)
    exact ⟨_, own, fun _ => rfl, fun hnot => absurd ⟨_, entry⟩ hnot⟩
  | leaves used absent going own number =>
    obtain ⟨-, rfl⟩ := Prod.mk.inj (List.mem_singleton.mp hgiven)
    refine ⟨_, own, ?_, fun _ => rfl⟩
    rintro ⟨e, he⟩
    exact absurd (absent.symm.trans he) nofun
  | past used absent still own number ever now =>
    obtain ⟨-, rfl⟩ := Prod.mk.inj (List.mem_singleton.mp hgiven)
    refine ⟨_, own, ?_, fun _ => rfl⟩
    rintro ⟨e, he⟩
    exact absurd (absent.symm.trans he) nofun

theorem Stands.once (h : Stands q sid a) (hgiven : (p, handler) ∈ a.given) :
    a.asked <+: [.begins p, .ends sid] ∧ a.here <+: [.begins p, .ends sid] := by
  have hbegun : [Wish.begins p] <+: [.begins p, .ends sid] := ⟨[.ends sid], rfl⟩
  cases h with
  | fresh => cases hgiven
  | waits => exact ⟨List.nil_prefix, List.nil_prefix⟩
  | runs used entry sent still own =>
    obtain ⟨rfl, -⟩ := Prod.mk.inj (List.mem_singleton.mp hgiven)
    exact ⟨hbegun, hbegun⟩
  | leaves used absent going own number =>
    obtain ⟨rfl, -⟩ := Prod.mk.inj (List.mem_singleton.mp hgiven)
    exact ⟨hbegun, hbegun⟩
  | past used absent still own number ever now =>
    obtain ⟨rfl, -⟩ := Prod.mk.inj (List.mem_singleton.mp hgiven)
    refine ⟨?_, ?_⟩
    · obtain rfl | rfl | rfl := ever
      · exact List.nil_prefix
      · exact hbegun
      · exact List.prefix_rfl
    · obtain rfl | ⟨rfl, -⟩ := now
      · exact List.nil_prefix
      · exact List.prefix_rfl

theorem Stands.unknown (h : Stands q sid a) (hnone : a.given = []) :
    q.entries.get? sid = none ∧ a.told = [] ∧ a.asked = [] := by
  cases h with
  | fresh absent => exact ⟨absent, rfl, rfl⟩
  | waits | runs | leaves | past => cases hnone

theorem Stands.live (h : Stands q sid a) {e : Subscription} (he : q.entries.get? sid = some e) :
    (⟨e.path, sid, e.qos⟩, e.handler) ∈ a.given := by
  cases h with
  | fresh absent => exact absurd (absent.symm.trans he) nofun
  | waits used entry =>
    obtain rfl := Option.some.inj (entry.symm.trans he)
    exact List.mem_singleton_self _
  | runs used entry =>
    obtain rfl := Option.some.inj (entry.symm.trans he)
    exact List.mem_singleton_self _
  | leaves used absent => exact absurd (absent.symm.trans he) nofun
  | past used absent => exact absurd (absent.symm.trans he) nofun

theorem Stands.replayed (h : Stands q sid a) (hq : q.Ordered) (hbegin : q.toSubscribe = [])
    (hend : q.toUnsubscribe = []) :
    (replay a.here).get? sid = (q.entries.get? sid).map fun e => (e.path, e.qos) := by
  cases h with
  | fresh absent =>
    rw [absent]
    rfl
  | waits used entry unsent =>
    have hmem := (hq.unsent sid _ entry).mpr unsent
    rw [hbegin] at hmem
    cases hmem
  | runs used entry =>
    rw [entry]
    exact (Table.get?_insert _ _ _ _).trans (if_pos rfl)
  | leaves used absent going =>
    rw [hend] at going
    cases going
  | past used absent still own number ever now =>
    rw [absent]
    obtain rfl | ⟨rfl, -⟩ := now
    · rfl
    · exact (Table.get?_erase _ _ _).trans (if_pos rfl)

end SubscriptionTable
end PeerLink
