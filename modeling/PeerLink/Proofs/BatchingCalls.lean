import PeerLink.Proofs.Batching
import PeerLink.Proofs.RequestRuns

/-! # Calls as turns of the subscriptions

* `Requester.noted`, `Requester.heading`: what is noted of a call.
* `Requester.Deals`: what a call leaves of the subscriptions, and where it sends.
* `Requester.flush_deals`: a flush asks for all that waits, unless there is no connection.
* `Requester.ends_by`: a subscription is ended by its own call, or with its connection.
-/

namespace PeerLink
set_option autoImplicit false

open Json (Value)

namespace Requester

/-! ## What is noted -/

def noted (es : Effects) : List DeskNote :=
  es.filterMap fun effect =>
    match effect with
    | .send o => some (.sent o)
    | .tell e => some (.told e)
    | .scheduleFlush => none

def scheduled (es : Effects) : Nat :=
  es.countP fun effect =>
    match effect with
    | .scheduleFlush => true
    | _ => false

/-- What is noted of a call before its effects. -/
def heading (r : Requester) : Call → List DeskNote
  | .connect link => [.connected link]
  | .disconnect => [.disconnected]
  | .subscribe path qos handler =>
    match (r.subscribe path qos handler).1 with
    | .ok sid => [.given ⟨path, sid, qos⟩ handler]
    | .error _ => []
  | _ => []

/-! ## Effects -/

@[simp] theorem noted_append (es es' : Effects) : noted (es ++ es') = noted es ++ noted es' :=
  List.filterMap_append

@[simp] theorem scheduled_append (es es' : Effects) :
    scheduled (es ++ es') = scheduled es + scheduled es' := List.countP_append

@[simp] theorem noted_flushIf (schedule : Bool) : noted (flushIf schedule) = [] := by
  cases schedule <;> rfl

@[simp] theorem scheduled_flushIf (schedule : Bool) :
    scheduled (flushIf schedule) = if schedule then 1 else 0 := by
  cases schedule <;> rfl

@[simp] theorem noted_map_tell (es : List HandlerEvent) : noted (es.map .tell) = es.map .told := by
  simp [noted, List.filterMap_map]

@[simp] theorem scheduled_map_tell (es : List HandlerEvent) : scheduled (es.map .tell) = 0 := by
  simp [scheduled, List.countP_map]

@[simp] theorem noted_sends (os : List Outgoing) : noted (sends os) = os.map .sent := by
  simp [noted, sends, List.filterMap_map]

@[simp] theorem scheduled_sends (os : List Outgoing) : scheduled (sends os) = 0 := by
  simp [scheduled, sends, List.countP_map]

/-! ## Calls that keep their connection -/

open SubscriptionTable (Turn Turns)

/-- What a call leaves of the subscriptions, and where it sends. -/
structure Deals (r : Requester) (n : Nat) (head : List DeskNote) (es : Effects) (r' : Requester)
    (n' : Nat) : Prop where
  turns : Turns r.subscriptions n (head ++ noted es) r'.subscriptions n'
  outlet : r'.outlet = r.outlet
  addressed : ∀ o, .send o ∈ es → r.outlet.map (·.link) = some o.link

variable {r r' r'' : Requester} {n n' n'' : Nat} {es es' : Effects}

theorem Deals.trans (h : r.Deals n [] es r' n') (h' : r'.Deals n' [] es' r'' n'') :
    r.Deals n [] (es ++ es') r'' n'' where
  turns := by
    rw [noted_append]
    exact h.turns.trans h'.turns
  outlet := h'.outlet.trans h.outlet
  addressed := by
    intro o ho
    rcases List.mem_append.mp ho with ho | ho
    · exact h.addressed o ho
    · rw [← h.outlet]
      exact h'.addressed o ho

/-- What concerns no subscription. -/
theorem Deals.silent (hsilent : ∀ note ∈ noted es, note.Silent)
    (hsame : r'.subscriptions = r.subscriptions) (houtlet : r'.outlet = r.outlet)
    (haddressed : ∀ o, .send o ∈ es → r.outlet.map (·.link) = some o.link) :
    r.Deals n [] es r' n :=
  ⟨hsame ▸ (Turn.rests hsilent).turns, houtlet, haddressed⟩

theorem Deals.unheard (hsame : r'.subscriptions = r.subscriptions)
    (houtlet : r'.outlet = r.outlet) : r.Deals n [] [] r' n :=
  .silent (List.forall_mem_nil _) hsame houtlet fun _ => List.not_mem_nil.elim

theorem mem_sends {os : List Outgoing} {o : Outgoing} (h : .send o ∈ sends os) : o ∈ os := by
  obtain ⟨o', ho', heq⟩ := List.mem_map.mp h
  exact RequesterEffect.send.inj heq ▸ ho'

theorem link_of_mem_sendTo (outlet : Option Outlet) {m : Message} {o : Outgoing}
    (h : o ∈ sendTo outlet m) : outlet.map (·.link) = some o.link ∧ o.message = m := by
  cases outlet with
  | none => cases h
  | some outlet =>
    rw [sendTo, Outlet.send] at h
    split at h
    · rw [List.mem_singleton.mp h]
      exact ⟨rfl, rfl⟩
    · cases h

theorem send_deals (r : Requester) {req : Request} (handler : Handler)
    (hnone : ∀ rid, (Message.request { req with rid }).wishes = []) :
    r.Deals n [] (r.send req handler).2.1 (r.send req handler).2.2 n := by
  unfold send
  cases houtlet : r.outlet with
  | none => exact .unheard rfl rfl
  | some outlet =>
    simp only
    split
    · refine .silent ?_ rfl houtlet.symm ?_
      · intro note hnote
        rw [noted_sends] at hnote
        obtain ⟨o, ho, rfl⟩ := List.mem_map.mp hnote
        have hmessage := (link_of_mem_sendTo (some outlet) ho).2
        show o.message.wishes = []
        rw [hmessage]
        exact hnone _
      · intro o ho
        rw [houtlet]
        exact (link_of_mem_sendTo (some outlet) (mem_sends ho)).1
    · exact .unheard rfl houtlet.symm

theorem scheduled_send (r : Requester) (req : Request) (handler : Handler) :
    scheduled (r.send req handler).2.1 = 0 := by
  unfold send
  cases r.outlet with
  | none => rfl
  | some outlet =>
    simp only
    split
    · exact scheduled_sends _
    · rfl

theorem scheduled_close (r : Requester) (rid : Nat) : scheduled (r.close rid).2.1 = 0 := by
  unfold close
  split
  · rfl
  · rw [scheduled_append, scheduled_sends]
    rfl

theorem close_deals (r : Requester) (rid : Nat) :
    r.Deals n [] (r.close rid).2.1 (r.close rid).2.2 n := by
  unfold close
  cases hstub : r.pending.get? rid with
  | none =>
    simp only [PendingTable.remove, hstub]
    exact .unheard rfl rfl
  | some stub =>
    simp only [PendingTable.remove, hstub]
    refine .silent ?_ rfl rfl ?_
    · intro note hnote
      rw [noted_append, noted_sends, List.mem_append] at hnote
      rcases hnote with hnote | hnote
      · obtain ⟨o, ho, rfl⟩ := List.mem_map.mp hnote
        show o.message.wishes = []
        rw [(link_of_mem_sendTo _ ho).2]
        rfl
      · rw [List.mem_singleton.mp hnote]
        rfl
    · intro o ho
      rcases List.mem_append.mp ho with ho | ho
      · exact (link_of_mem_sendTo _ (mem_sends ho)).1
      · cases List.mem_singleton.mp ho

theorem subscribe_deals (r : Requester) (path : String) (qos : Nat) (handler : Handler)
    (hleft : r.subscriptions.nextSid < wordBound) :
    r.Deals n (r.heading (.subscribe path qos handler)) (r.subscribe path qos handler).2.1
      (r.subscribe path qos handler).2.2
      (n + scheduled (r.subscribe path qos handler).2.1) := by
  unfold heading subscribe
  cases hopen : r.subscriptions.isOpen with
  | false =>
    simp only [Bool.false_eq_true, if_false]
    exact ⟨.refl, rfl, fun _ => List.not_mem_nil.elim⟩
  | true =>
    have hturn := Turn.adds (n := n) path qos handler hopen hleft
    have hschedule : (r.subscriptions.add path qos handler).2.1 =
        !r.subscriptions.flushScheduled := rfl
    simp only [if_true]
    refine ⟨?_, rfl, ?_⟩
    · rw [noted_flushIf, scheduled_flushIf, List.append_nil, hschedule]
      cases hflag : r.subscriptions.flushScheduled with
      | false =>
        rw [hflag] at hturn
        exact hturn.turns
      | true =>
        rw [hflag] at hturn
        exact hturn.turns
    · intro o ho
      rw [flushIf] at ho
      split at ho
      · cases List.mem_singleton.mp ho
      · cases ho

theorem unsubscribe_deals (r : Requester) (sid : Nat) :
    r.Deals n [] (r.unsubscribe sid).2.1 (r.unsubscribe sid).2.2
      (n + scheduled (r.unsubscribe sid).2.1) := by
  unfold unsubscribe
  cases he : r.subscriptions.entries.get? sid with
  | none =>
    simp only [SubscriptionTable.remove, he]
    exact .unheard rfl rfl
  | some e =>
    have hturn := Turn.drops (n := n) he
    cases hsent : e.sent with
    | false =>
      rw [hsent, SubscriptionTable.remove_of_unsent he hsent] at hturn
      rw [SubscriptionTable.remove_of_unsent he hsent]
      exact ⟨hturn.turns, rfl, by simp [flushIf]⟩
    | true =>
      rw [hsent, SubscriptionTable.remove_of_sent he hsent] at hturn
      rw [SubscriptionTable.remove_of_sent he hsent]
      cases hflag : r.subscriptions.flushScheduled with
      | false =>
        rw [hflag] at hturn
        exact ⟨hturn.turns, rfl, by simp [flushIf]⟩
      | true =>
        rw [hflag] at hturn
        exact ⟨hturn.turns, rfl, by simp [flushIf]⟩

theorem subscribe_closed {r : Requester} (h : r.subscriptions.isOpen = false) (path : String)
    (qos : Nat) (handler : Handler) :
    r.subscribe path qos handler = (.error .notConnected, [], r) := by
  rw [subscribe, h, if_neg Bool.false_ne_true]

theorem subscribe_open {r : Requester} (h : r.subscriptions.isOpen = true) (path : String)
    (qos : Nat) (handler : Handler) :
    (r.subscribe path qos handler).1 = .ok (r.subscriptions.add path qos handler).1 := by
  rw [subscribe, h, if_pos rfl]

theorem get?_remove_self (q : SubscriptionTable) (sid : Nat) :
    (q.remove sid).2.entries.get? sid = none := by
  cases he : q.entries.get? sid with
  | none => rw [SubscriptionTable.remove, he, he]
  | some e =>
    have herased : (q.entries.erase sid).get? sid = none := by rw [Table.get?_erase, if_pos rfl]
    cases hsent : e.sent with
    | true =>
      rw [SubscriptionTable.remove_of_sent he hsent]
      exact herased
    | false =>
      rw [SubscriptionTable.remove_of_unsent he hsent]
      exact herased

/-! ### Responses -/

theorem handleUpdates_deals (now : Timestamp) : ∀ (vs : List Value) (r : Requester),
    r.Deals n [] (r.handleUpdates now vs).1 (r.handleUpdates now vs).2 n ∧
      scheduled (r.handleUpdates now vs).1 = 0
  | [], _ => ⟨.unheard rfl rfl, rfl⟩
  | v :: vs, r => by
    have hone : r.Deals n [] (r.handleUpdate now v).1 (r.handleUpdate now v).2 n ∧
        scheduled (r.handleUpdate now v).1 = 0 := by
      unfold handleUpdate
      cases SubscriptionUpdate.ofEntry? now v with
      | none => exact ⟨.unheard rfl rfl, rfl⟩
      | some u =>
        cases he : r.subscriptions.entries.get? u.sid with
        | none =>
          simp only [SubscriptionTable.record, he]
          exact ⟨.unheard rfl rfl, rfl⟩
        | some e =>
          have hturn := Turn.hears (n := n) he
          simp only [SubscriptionTable.record, he] at hturn ⊢
          exact ⟨⟨hturn.turns, rfl, by simp⟩, rfl⟩
    obtain ⟨hrest, hlater⟩ := handleUpdates_deals now vs (r.handleUpdate now v).2
    rw [handleUpdates]
    refine ⟨hone.1.trans hrest, ?_⟩
    rw [scheduled_append, hone.2, hlater]

theorem responseEvents_silent (handler : Handler) (resp : Response) :
    ∀ e ∈ responseEvents handler resp, e.sid? = none := by
  intro e he
  rw [responseEvents] at he
  cases herror : resp.error with
  | some error =>
    rw [herror] at he
    rcases List.mem_pair.mp he with rfl | rfl <;> rfl
  | none =>
    rw [herror] at he
    rcases List.mem_cons.mp he with rfl | he
    · rfl
    · split at he
      · rw [List.mem_singleton.mp he]
        rfl
      · cases he

theorem handleResponse_deals (now : Timestamp) (r : Requester) (resp : Response) :
    r.Deals n [] (r.handleResponse now resp).1 (r.handleResponse now resp).2 n ∧
      scheduled (r.handleResponse now resp).1 = 0 := by
  unfold handleResponse
  by_cases hrid : resp.rid = Response.updateRid
  · rw [if_pos hrid]
    exact handleUpdates_deals now resp.updates r
  rw [if_neg hrid]
  cases r.pending.get? resp.rid with
  | none =>
    simp only
    split
    · exact ⟨.unheard rfl rfl, rfl⟩
    · refine ⟨.silent ?_ rfl rfl ?_, scheduled_sends _⟩
      · intro note hnote
        rw [noted_sends] at hnote
        obtain ⟨o, ho, rfl⟩ := List.mem_map.mp hnote
        show o.message.wishes = []
        rw [(link_of_mem_sendTo _ ho).2]
        rfl
      · intro o ho
        exact (link_of_mem_sendTo _ (mem_sends ho)).1
  | some stub =>
    refine ⟨.silent ?_ ?_ ?_ ?_, scheduled_map_tell _⟩
    · intro note hnote
      rw [noted_map_tell] at hnote
      obtain ⟨e, he, rfl⟩ := List.mem_map.mp hnote
      exact responseEvents_silent stub.handler resp e he
    · dsimp only
      split <;> rfl
    · dsimp only
      split <;> rfl
    · intro o ho
      obtain ⟨e, -, heq⟩ := List.mem_map.mp ho
      cases heq

/-! ### Batches -/

/-- A batch goes to the connection that is bound, and is lost when there is none. -/
theorem noted_sendBatch (r : Requester) (isEmpty : Bool) {req : Request} {ws : List Wish}
    (hwishes : ∀ rid, (Message.request { req with rid }).wishes = ws)
    (hempty : isEmpty = true → ws = []) {link : Nat} (hlink : r.outlet = some ⟨link, true⟩) :
    asks (noted (r.sendBatch isEmpty req).1) = ws := by
  unfold sendBatch
  cases isEmpty with
  | true =>
    rw [if_pos rfl, hempty rfl]
    rfl
  | false =>
    rw [if_neg Bool.false_ne_true, send, hlink]
    simp only [if_true, Outlet.send, noted_sends, List.map_cons, List.map_nil]
    exact (List.append_nil _).trans (hwishes _)

theorem sendBatch_sends (r : Requester) (isEmpty : Bool) (req : Request) :
    (∀ note ∈ noted (r.sendBatch isEmpty req).1, ∃ o, note = .sent o) ∧
      (r.sendBatch isEmpty req).2.subscriptions = r.subscriptions ∧
      (r.sendBatch isEmpty req).2.outlet = r.outlet ∧
      (∀ o, .send o ∈ (r.sendBatch isEmpty req).1 → r.outlet.map (·.link) = some o.link) ∧
      scheduled (r.sendBatch isEmpty req).1 = 0 := by
  unfold sendBatch
  cases isEmpty with
  | true => exact ⟨List.forall_mem_nil _, rfl, rfl, fun _ => List.not_mem_nil.elim, rfl⟩
  | false =>
    rw [if_neg Bool.false_ne_true, send]
    cases houtlet : r.outlet with
    | none => exact ⟨List.forall_mem_nil _, rfl, houtlet, fun _ => List.not_mem_nil.elim, rfl⟩
    | some outlet =>
      simp only
      split
      · refine ⟨?_, rfl, rfl, ?_, scheduled_sends _⟩
        · intro note hnote
          rw [noted_sends] at hnote
          obtain ⟨o, -, rfl⟩ := List.mem_map.mp hnote
          exact ⟨o, rfl⟩
        · intro o ho
          exact (link_of_mem_sendTo (some outlet) (mem_sends ho)).1
      · exact ⟨List.forall_mem_nil _, rfl, rfl, fun _ => List.not_mem_nil.elim, rfl⟩

/-- A requester is connected with a writer, or has nothing to ask for. -/
def Ready (r : Requester) : Prop :=
  (∃ link, r.outlet = some ⟨link, true⟩) ∨ r.outlet = none ∧ r.subscriptions.next = []

theorem asks_append (ns ns' : List DeskNote) : asks (ns ++ ns') = asks ns ++ asks ns' :=
  List.flatMap_append

/-- The first request of a flush. -/
def flushBegins (r : Requester) : Effects × Requester :=
  { r with subscriptions := r.subscriptions.takeBatch.2 }.sendBatch
    r.subscriptions.takeBatch.1.subscribe.isEmpty
    { rid := 0, method := .subscribe, paths := r.subscriptions.takeBatch.1.subscribe }

/-- The second one. -/
def flushEnds (r : Requester) : Effects × Requester :=
  r.flushBegins.2.sendBatch r.subscriptions.takeBatch.1.unsubscribe.isEmpty
    { rid := 0, method := .unsubscribe, sids := r.subscriptions.takeBatch.1.unsubscribe }

theorem flush_eq (r : Requester) :
    r.flush = (r.flushBegins.1 ++ r.flushEnds.1, r.flushEnds.2) := rfl

theorem asks_flush (hready : r.Ready) : asks (noted r.flush.1) = r.subscriptions.next := by
  have houtlet : r.flushBegins.2.outlet = r.outlet := (sendBatch_sends _ _ _).2.2.1
  rw [flush_eq, noted_append, asks_append]
  obtain ⟨link, hlink⟩ | ⟨hnone, hnext⟩ := hready
  · have hbegins : asks (noted r.flushBegins.1) =
        (r.subscriptions.toSubscribe.filterMap r.subscriptions.batchEntry).map .begins := by
      refine noted_sendBatch _ _ (fun _ => rfl) ?_ hlink
      intro hempty
      exact List.map_eq_nil_iff.mpr (List.isEmpty_iff.mp hempty)
    have hends : asks (noted r.flushEnds.1) = r.subscriptions.toUnsubscribe.map .ends := by
      refine noted_sendBatch _ _ (fun _ => rfl) ?_ (houtlet.trans hlink)
      intro hempty
      exact List.map_eq_nil_iff.mpr (List.isEmpty_iff.mp hempty)
    rw [hbegins, hends]
    rfl
  · have hlost : ∀ (r : Requester) (isEmpty : Bool) (req : Request), r.outlet = none →
        (r.sendBatch isEmpty req).1 = [] := by
      intro r isEmpty req hnone
      unfold sendBatch
      split
      · rfl
      · rw [send, hnone]
    have hbegins : r.flushBegins.1 = [] := hlost _ _ _ hnone
    have hends : r.flushEnds.1 = [] := hlost _ _ _ (houtlet.trans hnone)
    rw [hnext, hbegins, hends]
    rfl

theorem flush_deals {m : Nat} (hready : r.Ready) :
    r.Deals (m + 1) [] r.flush.1 r.flush.2 m ∧ scheduled r.flush.1 = 0 := by
  have hasks := asks_flush hready
  obtain ⟨hsent, hsame, houtlet, hto, hzero⟩ : _ ∧ _ ∧ r.flushBegins.2.outlet = r.outlet ∧ _ :=
    sendBatch_sends _ _ _
  obtain ⟨hsent', hsame', houtlet', hto', hzero'⟩ :
      (∀ note ∈ noted r.flushEnds.1, ∃ o, note = .sent o) ∧ _ ∧ _ ∧ _ := sendBatch_sends _ _ _
  rw [flush_eq] at hasks ⊢
  have hall : ∀ note ∈ noted (r.flushBegins.1 ++ r.flushEnds.1), ∃ o, note = .sent o := by
    rw [noted_append]
    exact List.forall_mem_append.mpr ⟨hsent, hsent'⟩
  refine ⟨⟨?_, houtlet'.trans houtlet, ?_⟩, ?_⟩
  · have hafter : r.flushEnds.2.subscriptions = r.subscriptions.takeBatch.2 :=
      hsame'.trans hsame
    rw [hafter]
    exact (Turn.asks rfl hall hasks).turns
  · intro o ho
    rcases List.mem_append.mp ho with ho | ho
    · exact hto o ho
    · rw [← houtlet]
      exact hto' o ho
  · rw [scheduled_append]
    exact congrArg₂ (· + ·) hzero hzero'

/-! ## Calls that end a connection -/

/-- What handlers are told of open requests when their connection ends. -/
def losses (r : Requester) : List HandlerEvent :=
  r.pending.drain.1.flatMap fun s =>
    [.failed s.handler s.rid .connectionLost, .closed s.handler s.rid]

def partings (r : Requester) : List HandlerEvent :=
  r.subscriptions.drain.1.map fun e => .ended e.2 e.1

theorem effects_disconnect (r : Requester) :
    r.disconnect.1 = (r.losses ++ r.partings).map .tell := by
  have hstubs : r.losses.map .tell = r.pending.drain.1.flatMap closeLost := by
    rw [losses, List.map_flatMap]
    rfl
  rw [List.map_append, hstubs, partings, List.map_map]
  rfl

theorem losses_silent (r : Requester) : ∀ note ∈ r.losses.map DeskNote.told, note.Silent := by
  intro note hnote
  obtain ⟨e, he, rfl⟩ := List.mem_map.mp hnote
  obtain ⟨s, -, he⟩ := List.mem_flatMap.mp he
  rcases List.mem_pair.mp he with rfl | rfl <;> rfl

theorem noted_disconnect (r : Requester) :
    noted r.disconnect.1 = r.losses.map .told ++ r.subscriptions.endings := by
  rw [effects_disconnect, noted_map_tell, List.map_append, partings, List.map_map]
  rfl

/-! ## Who tells of an end -/

def Spares (e : HandlerEvent) : Prop := ∀ handler sid, e ≠ .ended handler sid

theorem spares_of_sid {e : HandlerEvent} (h : e.sid? = none) : Spares e := by
  rintro handler sid rfl
  cases h

theorem told_of_sent {es : Effects} (h : ∀ note ∈ noted es, ∃ o, note = .sent o) :
    told es = [] := by
  refine List.eq_nil_iff_forall_not_mem.mpr ?_
  intro e he
  obtain ⟨effect, heffect, hnote⟩ := List.mem_filterMap.mp he
  cases effect with
  | tell e' =>
    obtain ⟨o, ho⟩ := h (.told e') (List.mem_filterMap.mpr ⟨_, heffect, rfl⟩)
    cases ho
  | send | scheduleFlush => cases hnote

theorem told_send (r : Requester) (req : Request) (handler : Handler) :
    told (r.send req handler).2.1 = [] := by
  unfold send
  cases r.outlet with
  | none => rfl
  | some outlet =>
    simp only
    split
    · exact told_sends _
    · rfl

theorem told_handleUpdates (now : Timestamp) : ∀ (vs : List Value) (r : Requester),
    ∀ e ∈ told (r.handleUpdates now vs).1, Spares e
  | [], _ => List.forall_mem_nil _
  | v :: vs, r => by
    intro e he
    rw [handleUpdates, told_append] at he
    rcases List.mem_append.mp he with he | he
    · unfold handleUpdate at he
      split at he
      · cases he
      · split at he
        · cases he
        · rw [List.mem_singleton.mp he]
          intro handler sid heq
          cases heq
    · exact told_handleUpdates now vs _ e he

theorem told_handleResponse (now : Timestamp) (r : Requester) (resp : Response) :
    ∀ e ∈ told (r.handleResponse now resp).1, Spares e := by
  intro e he
  unfold handleResponse at he
  split at he
  · exact told_handleUpdates now resp.updates r e he
  · split at he
    · split at he
      · cases he
      · rw [told_sends] at he
        cases he
    · rw [told_map_tell] at he
      exact spares_of_sid (responseEvents_silent _ resp e he)

/-- A call that tells that a number has ended is the one that ends it, or ends all. -/
theorem ends_by (r : Requester) {call : Call} {handler : Handler} {sid : Nat}
    (h : .ended handler sid ∈ told (r.perform call).effects) :
    call = .unsubscribe sid ∨ call = .disconnect := by
  have hsend : ∀ {req : Request} {handler' : Handler},
      .ended handler sid ∉ told (r.send req handler').2.1 := by
    intro req handler'
    rw [told_send]
    exact List.not_mem_nil
  cases call with
  | connect | loseWriter => cases h
  | disconnect => exact .inr rfl
  | list | invoke | set | remove => exact absurd h hsend
  | close rid =>
    have hclose : told (r.close rid).2.1 = [] ∨
        ∃ s : Handler, told (r.close rid).2.1 = [.closed s rid] := by
      unfold close
      split
      · exact .inl rfl
      · rw [told_append, told_sends]
        exact .inr ⟨_, rfl⟩
    obtain hnone | ⟨s, hone⟩ := hclose
    · rw [perform, hnone] at h
      cases h
    · rw [perform, hone] at h
      cases List.mem_singleton.mp h
  | subscribe path qos handler' =>
    rw [perform, (subscribe_quiet path qos handler').2] at h
    cases h
  | unsubscribe sid' =>
    have hended : .ended handler sid ∈ told (r.unsubscribe sid').2.1 := h
    unfold unsubscribe at hended
    split at hended
    · cases hended
    · rw [told_append, told_flushIf, List.nil_append] at hended
      obtain ⟨-, rfl⟩ := HandlerEvent.ended.inj (List.mem_singleton.mp hended)
      exact .inl rfl
  | flush =>
    have hsent : ∀ note ∈ noted r.flush.1, ∃ o, note = .sent o := by
      rw [flush_eq, noted_append]
      exact List.forall_mem_append.mpr ⟨(sendBatch_sends _ _ _).1, (sendBatch_sends _ _ _).1⟩
    rw [perform, told_of_sent hsent] at h
    cases h
  | respond now resp => exact absurd rfl (told_handleResponse now r resp _ h handler sid)

end Requester
end PeerLink
