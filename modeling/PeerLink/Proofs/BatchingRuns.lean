import PeerLink.Proofs.BatchingSteps
import PeerLink.Proofs.BatchingCalls

/-! # Requesters that batch

* `Requester.Desk`: a requester, the flushes that wait to be run, and what was noted of it.
* `Requester.Desk.Kept`: the invariant.
* `Requester.Desk.Lawful`: each subscription is asked for and ended once, hears its own values until
  it ends, and what was sent leaves the other peer with what is there.
* `Requester.Desk.ofCalls_lawful`: so it is after any calls. Without a disconnect in between a
  second connection goes on from what was sent to the first (`Requester.Desk.rebound_leaks`).
-/

namespace PeerLink
set_option autoImplicit false

namespace Requester

open SubscriptionTable (Turns)

/-! ## Desks -/

structure Desk where
  requester : Requester := {}
  /-- How many flushes have been scheduled and not yet run. -/
  flushes : Nat := 0
  notes : List DeskNote := []

namespace Desk

/-- Writers stay, there are numbers left, and a flush is one that waits. -/
def allows (d : Desk) : Call → Bool
  | .loseWriter _ => false
  | .subscribe .. => d.requester.subscriptions.nextSid < wordBound
  | .flush => 0 < d.flushes
  | _ => true

def taken : Call → Nat
  | .flush => 1
  | _ => 0

/-- What comes of a call; one that is not possible changes nothing. -/
def after (d : Desk) (call : Call) : Desk :=
  if d.allows call then
    let outcome := d.requester.perform call
    { requester := outcome.after
      flushes := d.flushes - taken call + scheduled outcome.effects
      notes := d.notes ++ (d.requester.heading call ++ noted outcome.effects) }
  else d

def ofCalls (calls : List Call) : Desk := calls.foldl after {}

end Desk

/-- The connection that is bound. -/
def boundLink (ns : List DeskNote) : Option Nat :=
  ns.foldl (fun bound note => match note with
    | .connected link => some link
    | .disconnected => none
    | _ => bound) none

/-! ## The invariant -/

namespace Desk

/-- What is sent goes to the connection that is bound. -/
def Sent (early : List DeskNote) (note : DeskNote) : Prop :=
  ∀ o, note = .sent o → boundLink early = some o.link

/-- What holds of a desk. -/
structure Kept (d : Desk) : Prop where
  booked : d.requester.subscriptions.Booked d.flushes d.notes
  outlet : d.requester.outlet = (boundLink d.notes).map (⟨·, true⟩)
  opened : d.requester.subscriptions.isOpen = d.requester.outlet.isSome
  sent : Each Sent d.notes

theorem boundLink_append {ns : List DeskNote} (early : List DeskNote)
    (h : ∀ note ∈ ns, note ≠ .disconnected ∧ ∀ link, note ≠ .connected link) :
    boundLink (early ++ ns) = boundLink early := by
  induction ns using List.reverseRecOn with
  | nil => rw [List.append_nil]
  | append_singleton ns note ih =>
    have hinit := ih fun m hm => h m (List.mem_append_left _ hm)
    obtain ⟨hdisconnected, hconnected⟩ := h note (by simp)
    rw [← hinit, ← List.append_assoc, boundLink, List.foldl_append]
    cases note with
    | disconnected => exact absurd rfl hdisconnected
    | connected link => exact absurd rfl (hconnected link)
    | given | sent | told => rfl

theorem sent_append {ns early : List DeskNote} (h : Each Sent early)
    (hother : ∀ note ∈ ns, note ≠ .disconnected ∧ ∀ link, note ≠ .connected link)
    (hsent : ∀ o, .sent o ∈ ns → boundLink early = some o.link) : Each Sent (early ++ ns) := by
  induction ns using List.reverseRecOn with
  | nil =>
    rw [List.append_nil]
    exact h
  | append_singleton ns note ih =>
    have hinit : ∀ m ∈ ns, m ≠ .disconnected ∧ ∀ link, m ≠ .connected link :=
      fun m hm => hother m (List.mem_append_left _ hm)
    rw [← List.append_assoc]
    refine (ih hinit fun o ho => hsent o (List.mem_append_left _ ho)).snoc ?_
    rintro o rfl
    rw [boundLink_append early hinit]
    exact hsent o (by simp)

theorem mem_noted {es : Effects} {note : DeskNote} (h : note ∈ noted es) :
    (∃ o, note = .sent o ∧ .send o ∈ es) ∨ ∃ e, note = .told e := by
  obtain ⟨effect, heffect, hnote⟩ := List.mem_filterMap.mp h
  cases effect with
  | send o => exact .inl ⟨o, (Option.some.inj hnote).symm, heffect⟩
  | tell e => exact .inr ⟨e, (Option.some.inj hnote).symm⟩
  | scheduleFlush => cases hnote

theorem Kept.start : Kept {} where
  booked := SubscriptionTable.Booked.start
  outlet := rfl
  opened := rfl
  sent := Each.nil

variable {d : Desk}

theorem Kept.ready (h : d.Kept) : d.requester.Ready := by
  cases hbound : boundLink d.notes with
  | some link =>
    refine .inl ⟨link, ?_⟩
    rw [h.outlet, hbound]
    rfl
  | none =>
    have hnone : d.requester.outlet = none := by rw [h.outlet, hbound, Option.map_none]
    have hclosed : d.requester.subscriptions.isOpen = false := by rw [h.opened, hnone]; rfl
    obtain ⟨-, hsub, hun⟩ := h.booked.idle hclosed
    refine .inr ⟨hnone, ?_⟩
    rw [SubscriptionTable.next, hsub, hun]
    rfl

theorem turns_isOpen {q q' : SubscriptionTable} {n n' : Nat} {ns : List DeskNote}
    (h : Turns q n ns q' n')
    (hns : ∀ note ∈ ns, note ≠ .disconnected ∧ ∀ link, note ≠ .connected link) :
    q'.isOpen = q.isOpen := by
  induction h with
  | refl => rfl
  | tail _ turn ih =>
    rw [← ih fun note hn => hns note (List.mem_append_left _ hn)]
    have hlast := fun note hn => hns note (List.mem_append_right _ hn)
    cases turn with
    | rests => rfl
    | opens link => exact absurd rfl ((hlast (.connected link) (by simp)).2 link)
    | adds => rfl
    | @drops sid e entry =>
      cases hsent : e.sent with
      | true => rw [SubscriptionTable.remove_of_sent entry hsent]
      | false => rw [SubscriptionTable.remove_of_unsent entry hsent]
    | hears => rw [SubscriptionTable.record_same]
    | asks => rfl
    | closes => exact absurd rfl (hlast .disconnected (by simp)).1

/-- A call that keeps its connection keeps what holds. -/
theorem Kept.deals (h : d.Kept) {head : List DeskNote} {es : Effects} {r' : Requester} {n' : Nat}
    (hdeals : d.requester.Deals d.flushes head es r' n')
    (hhead : ∀ note ∈ head, ∃ p handler, note = .given p handler) :
    Kept ⟨r', n', d.notes ++ (head ++ noted es)⟩ := by
  have hother : ∀ note ∈ head ++ noted es,
      note ≠ .disconnected ∧ ∀ link, note ≠ .connected link := by
    intro note hnote
    rcases List.mem_append.mp hnote with hnote | hnote
    · obtain ⟨p, handler, rfl⟩ := hhead note hnote
      exact ⟨nofun, nofun⟩
    · obtain ⟨o, rfl, -⟩ | ⟨e, rfl⟩ := mem_noted hnote
      · exact ⟨nofun, nofun⟩
      · exact ⟨nofun, nofun⟩
  refine ⟨h.booked.turns hdeals.turns, ?_, ?_, ?_⟩
  · rw [boundLink_append _ hother]
    exact hdeals.outlet.trans h.outlet
  · show r'.subscriptions.isOpen = r'.outlet.isSome
    rw [hdeals.outlet, turns_isOpen hdeals.turns hother]
    exact h.opened
  · refine sent_append h.sent hother ?_
    intro o ho
    have hmem : .sent o ∈ noted es := by
      rcases List.mem_append.mp ho with ho | ho
      · obtain ⟨p, handler, heq⟩ := hhead _ ho
        cases heq
      · exact ho
    obtain ⟨o', heq, hsend⟩ | ⟨e, heq⟩ := mem_noted hmem
    · obtain rfl := DeskNote.sent.inj heq
      have hlink := hdeals.addressed o hsend
      rw [h.outlet] at hlink
      cases hbound : boundLink d.notes with
      | none =>
        rw [hbound] at hlink
        cases hlink
      | some link =>
        rw [hbound] at hlink
        exact hlink
    · cases heq

theorem Kept.connect (h : d.Kept) (link : Nat) :
    Kept ⟨d.requester.connect link, d.flushes, d.notes ++ [.connected link]⟩ where
  booked := h.booked.turn (.opens link)
  outlet := by
    rw [boundLink, List.foldl_append]
    rfl
  opened := rfl
  sent := h.sent.snoc nofun

theorem Kept.disconnect (h : d.Kept) :
    Kept ⟨d.requester.disconnect.2, d.flushes,
      d.notes ++ .disconnected :: noted d.requester.disconnect.1⟩ := by
  have htold : ∀ note ∈ noted d.requester.disconnect.1, ∃ e, note = .told e := by
    intro note hnote
    rw [effects_disconnect, noted_map_tell] at hnote
    obtain ⟨e, -, rfl⟩ := List.mem_map.mp hnote
    exact ⟨e, rfl⟩
  have hother : ∀ note ∈ noted d.requester.disconnect.1,
      note ≠ .disconnected ∧ ∀ link, note ≠ .connected link := by
    intro note hnote
    obtain ⟨e, rfl⟩ := htold note hnote
    exact ⟨nofun, nofun⟩
  have hsplit : d.notes ++ .disconnected :: noted d.requester.disconnect.1 =
      (d.notes ++ [.disconnected]) ++ noted d.requester.disconnect.1 := by
    rw [List.append_assoc, List.singleton_append]
  refine ⟨?_, ?_, rfl, ?_⟩
  · show SubscriptionTable.Booked d.requester.subscriptions.drain.2 _ _
    rw [noted_disconnect]
    exact h.booked.turn (.closes (losses_silent d.requester))
  · rw [hsplit, boundLink_append _ hother, boundLink, List.foldl_append]
    rfl
  · rw [hsplit]
    refine sent_append (h.sent.snoc nofun) hother ?_
    intro o ho
    obtain ⟨e, heq⟩ := htold _ ho
    cases heq

theorem Kept.after (h : d.Kept) (call : Call) : (d.after call).Kept := by
  rw [Desk.after]
  by_cases hallowed : d.allows call = true
  · rw [if_pos hallowed]
    have hquiet : ∀ {es : Effects} {r' : Requester},
        d.requester.Deals d.flushes [] es r' d.flushes → scheduled es = 0 →
          Kept ⟨r', d.flushes - 0 + scheduled es, d.notes ++ ([] ++ noted es)⟩ := by
      intro es r' hdeals hzero
      rw [hzero]
      exact h.deals hdeals (List.forall_mem_nil _)
    cases call with
    | connect link => exact h.connect link
    | loseWriter link => cases hallowed
    | disconnect =>
      have hzero : scheduled d.requester.disconnect.1 = 0 := by
        rw [effects_disconnect, scheduled_map_tell]
      show Kept ⟨_, d.flushes - 0 + scheduled d.requester.disconnect.1, _⟩
      rw [hzero]
      exact h.disconnect
    | list path handler =>
      exact hquiet (send_deals _ _ fun _ => rfl) (scheduled_send _ _ _)
    | invoke path params handler =>
      exact hquiet (send_deals _ _ fun _ => rfl) (scheduled_send _ _ _)
    | set path value permit handler =>
      exact hquiet (send_deals _ _ fun _ => rfl) (scheduled_send _ _ _)
    | remove path handler =>
      exact hquiet (send_deals _ _ fun _ => rfl) (scheduled_send _ _ _)
    | close rid => exact hquiet (close_deals _ rid) (scheduled_close _ rid)
    | subscribe path qos handler =>
      refine h.deals (subscribe_deals _ path qos handler (of_decide_eq_true hallowed)) ?_
      intro note hnote
      rw [heading] at hnote
      split at hnote
      · exact ⟨_, _, List.mem_singleton.mp hnote⟩
      · cases hnote
    | unsubscribe sid => exact h.deals (unsubscribe_deals _ sid) (List.forall_mem_nil _)
    | flush =>
      have hwaiting : 0 < d.flushes := of_decide_eq_true hallowed
      obtain ⟨hdeals, hzero⟩ := flush_deals (m := d.flushes - 1) h.ready
      rw [Nat.sub_add_cancel hwaiting] at hdeals
      show Kept ⟨_, d.flushes - 1 + scheduled d.requester.flush.1, _⟩
      rw [hzero]
      exact h.deals hdeals (List.forall_mem_nil _)
    | respond now resp =>
      obtain ⟨hdeals, hzero⟩ := handleResponse_deals (n := d.flushes) now d.requester resp
      exact hquiet hdeals hzero
  · rw [if_neg hallowed]
    exact h

theorem ofCalls_kept (calls : List Call) : (ofCalls calls).Kept := by
  induction calls using List.reverseRecOn with
  | nil => exact Kept.start
  | append_singleton calls call ih =>
    rw [ofCalls, List.foldl_append]
    exact Kept.after ih call

/-! ## What follows -/

def Live (d : Desk) (sid : Nat) : Prop := ∃ e, d.requester.subscriptions.entries.get? sid = some e

/-- What subscribers and the other peer can rely on. -/
structure Lawful (d : Desk) : Prop where
  /-- A number is given once, before anything is told or sent about it. -/
  first : Each SubscriptionTable.First d.notes
  /-- Its own handler hears its own values, and that it has ended once it is gone; then nothing. -/
  heard : ∀ p handler, .given p handler ∈ d.notes → ∃ us : List SubscriptionUpdate,
    (∀ u ∈ us, u.sid = p.sid) ∧
      (d.Live p.sid → toldOf p.sid d.notes = us.map (.update handler)) ∧
      (¬ d.Live p.sid →
        toldOf p.sid d.notes = us.map (.update handler) ++ [.ended handler p.sid])
  live : ∀ sid e, d.requester.subscriptions.entries.get? sid = some e →
    .given ⟨e.path, sid, e.qos⟩ e.handler ∈ d.notes
  /-- A number that was not given is not heard of. -/
  unknown : ∀ sid, (∀ p handler, .given p handler ∈ d.notes → p.sid ≠ sid) →
    ¬ d.Live sid ∧ toldOf sid d.notes = [] ∧ asksOf sid d.notes = []
  /-- A subscription that is refused is told to nobody and changes nothing; it is refused when
  there is no connection, and only then. -/
  refused : ∀ path qos handler,
    (∀ e, (d.requester.subscribe path qos handler).1 = .error e →
      d.after (.subscribe path qos handler) = d) ∧
    ((∃ e, (d.requester.subscribe path qos handler).1 = .error e) ↔ boundLink d.notes = none)
  /-- It ends when it is unsubscribed or its connection ends, and at no other time. -/
  ends : ∀ call handler sid, .ended handler sid ∈ told (d.requester.perform call).effects →
    call = .unsubscribe sid ∨ call = .disconnect
  gone : ∀ sid, ¬ (d.after (.unsubscribe sid)).Live sid ∧ ¬ (d.after .disconnect).Live sid
  /-- It is asked for at most once and given up at most once, after that, and in all as since the
  latest disconnect. -/
  once : ∀ p handler, .given p handler ∈ d.notes →
    asksOf p.sid d.notes <+: [.begins p, .ends p.sid] ∧
      asksOf p.sid (DeskNote.latest d.notes) <+: [.begins p, .ends p.sid]
  /-- What is sent goes to the connection that is bound. -/
  sent : Each Sent d.notes
  single : d.flushes ≤ 1
  /-- What waits to be sent has a flush that waits. -/
  waiting : d.requester.subscriptions.toSubscribe ≠ [] ∨
    d.requester.subscriptions.toUnsubscribe ≠ [] → d.flushes = 1
  /-- When no flush waits, what was sent since the latest disconnect leaves what is there. -/
  replayed : d.flushes = 0 → ∀ sid, (replay (asks (DeskNote.latest d.notes))).get? sid =
    (d.requester.subscriptions.entries.get? sid).map fun e => (e.path, e.qos)

theorem mem_givenOf {p : SubscribePath} {handler : Handler} {ns : List DeskNote} {sid : Nat} :
    (p, handler) ∈ givenOf sid ns ↔ p.sid = sid ∧ .given p handler ∈ ns := by
  constructor
  · intro h
    obtain ⟨note, hnote, hgiven⟩ := List.mem_filterMap.mp h
    cases note with
    | given p' handler' =>
      rw [DeskNote.given?] at hgiven
      split at hgiven
      · obtain ⟨rfl, rfl⟩ := Prod.mk.inj (Option.some.inj hgiven)
        exact ⟨by assumption, hnote⟩
      · cases hgiven
    | sent | told | connected | disconnected => cases hgiven
  · rintro ⟨hsid, hnote⟩
    exact List.mem_filterMap.mpr ⟨_, hnote, if_pos hsid⟩

theorem replayed_latest {q : SubscriptionTable} {ns : List DeskNote} (h : q.Booked 0 ns)
    (sid : Nat) :
    (replay (asks (DeskNote.latest ns))).get? sid =
      (q.entries.get? sid).map fun e => (e.path, e.qos) := by
  have hflag : q.flushScheduled ≠ true := by
    intro hflag
    have hwaiting := h.waiting
    rw [hflag, if_pos rfl] at hwaiting
    cases hwaiting
  have hidle : ¬ (q.toSubscribe ≠ [] ∨ q.toUnsubscribe ≠ []) :=
    fun hor => hflag (h.ordered.scheduled hor)
  obtain ⟨hbegin, hend⟩ := not_or.mp hidle
  rw [get?_replay_filter]
  exact (h.stands sid).replayed h.ordered (not_not.mp hbegin) (not_not.mp hend)

theorem not_live_unsubscribe (d : Desk) (sid : Nat) : ¬ (d.after (.unsubscribe sid)).Live sid := by
  have hafter : (d.after (.unsubscribe sid)).requester.subscriptions =
      (d.requester.subscriptions.remove sid).2 := by
    show (d.requester.unsubscribe sid).2.2.subscriptions = _
    unfold unsubscribe
    cases he : d.requester.subscriptions.entries.get? sid with
    | none => simp only [SubscriptionTable.remove, he]
    | some e =>
      cases hsent : e.sent with
      | true => rw [SubscriptionTable.remove_of_sent he hsent]
      | false => rw [SubscriptionTable.remove_of_unsent he hsent]
  rintro ⟨e, he⟩
  rw [hafter, get?_remove_self] at he
  cases he

theorem after_refused {path : String} {qos : Nat} {handler : Handler}
    (h : d.requester.subscriptions.isOpen = false) :
    d.after (.subscribe path qos handler) = d := by
  rw [Desk.after]
  split
  · simp only [perform, heading, subscribe_closed h]
    exact congrArg (Desk.mk d.requester d.flushes) (List.append_nil d.notes)
  · rfl

theorem Kept.isOpen_eq (h : d.Kept) :
    d.requester.subscriptions.isOpen = (boundLink d.notes).isSome := by
  rw [h.opened, h.outlet, Option.isSome_map]

theorem Kept.refused (h : d.Kept) (path : String) (qos : Nat) (handler : Handler) :
    (∀ e, (d.requester.subscribe path qos handler).1 = .error e →
      d.after (.subscribe path qos handler) = d) ∧
    ((∃ e, (d.requester.subscribe path qos handler).1 = .error e) ↔
      boundLink d.notes = none) := by
  have hbound := h.isOpen_eq
  cases hopen : d.requester.subscriptions.isOpen with
  | false =>
    rw [hopen] at hbound
    have hnone := Option.isSome_eq_false_iff.mp hbound.symm
    refine ⟨fun _ _ => after_refused hopen, iff_of_true ⟨.notConnected, ?_⟩
      (Option.isNone_iff_eq_none.mp hnone)⟩
    rw [subscribe_closed hopen]
  | true =>
    rw [hopen] at hbound
    have hok := subscribe_open hopen path qos handler
    have hnever : ∀ e, (d.requester.subscribe path qos handler).1 ≠ .error e := by
      intro e he
      cases hok.symm.trans he
    exact ⟨fun e he => absurd he (hnever e),
      iff_of_false (not_exists.mpr hnever) (Option.isSome_iff_ne_none.mp hbound.symm)⟩

theorem Kept.unknown (h : d.Kept) (sid : Nat)
    (hnot : ∀ p handler, .given p handler ∈ d.notes → p.sid ≠ sid) :
    ¬ d.Live sid ∧ toldOf sid d.notes = [] ∧ asksOf sid d.notes = [] := by
  have hnone : givenOf sid d.notes = [] := by
    refine List.eq_nil_iff_forall_not_mem.mpr ?_
    rintro ⟨p, handler⟩ hmem
    obtain ⟨hsid, hgiven⟩ := mem_givenOf.mp hmem
    exact hnot p handler hgiven hsid
  obtain ⟨habsent, htold, hasked⟩ := (h.booked.stands sid).unknown hnone
  refine ⟨?_, htold, hasked⟩
  rintro ⟨e, he⟩
  cases habsent.symm.trans he

theorem Kept.lawful (h : d.Kept) : d.Lawful where
  first := h.booked.first
  heard := by
    intro p handler hgiven
    exact (h.booked.stands p.sid).heard (mem_givenOf.mpr ⟨rfl, hgiven⟩)
  live := by
    intro sid e he
    exact (mem_givenOf.mp ((h.booked.stands sid).live he)).2
  unknown := h.unknown
  refused := h.refused
  ends := fun call handler sid htold => ends_by d.requester htold
  gone := by
    intro sid
    refine ⟨not_live_unsubscribe d sid, ?_⟩
    rintro ⟨e, he⟩
    cases he
  once := by
    intro p handler hgiven
    exact (h.booked.stands p.sid).once (mem_givenOf.mpr ⟨rfl, hgiven⟩)
  sent := h.sent
  single := by
    rw [h.booked.waiting]
    split <;> omega
  waiting := by
    intro hor
    rw [h.booked.waiting, h.booked.ordered.scheduled hor]
    rfl
  replayed := by
    intro hzero
    have hbooked := h.booked
    rw [hzero] at hbooked
    exact replayed_latest hbooked

/-- Whatever is called, and whatever the other peer answers. -/
theorem ofCalls_lawful (calls : List Call) : (ofCalls calls).Lawful := (ofCalls_kept calls).lawful

/-- A second connection without a disconnect in between: the first one has the subscription. -/
def rebound : List Call :=
  [.connect 1, .subscribe "/a" 1 (some "t"), .flush, .connect 2, .unsubscribe 1, .flush]

/-- The second connection is asked to end what it was never asked to begin. -/
theorem rebound_leaks : ∃ early late, (ofCalls rebound).notes = early ++ .connected 2 :: late ∧
    (∀ note ∈ late, note ≠ .disconnected ∧ ∀ link, note ≠ .connected link) ∧
    asks late = [.ends 1] := by
  let ending : Request := { rid := 2, method := .unsubscribe, sids := [1] }
  refine ⟨(ofCalls (rebound.take 3)).notes,
    [.told (.ended (some "t") 1), .sent ⟨2, .request ending⟩], rfl, ?_, rfl⟩
  simp

end Desk
end Requester
end PeerLink
