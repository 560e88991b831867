import PeerLink.Proofs.DialogueSteps

/-! # Runs of a dialogue

* `Peer.Asks`, `Peer.Serves`: the two peers; what they do is what their one side does.
* `Dialogue.Kept`: the invariant. While the link is whole the streams are sound.
* `Dialogue.ends_agree`: when no message is on its way, both ends have the same streams open.
-/

namespace PeerLink
set_option autoImplicit false

open Dialogue (lanes)

variable {σ : Type}

/-! ## Peers -/

namespace Peer

/-- A peer that only asks; without a connection nothing is open. -/
structure Asks (p : Peer σ) (q : Requester) : Prop where
  requester : p.requester = some q
  responder : p.responder = none
  outlet : p.outlet = q.outlet
  link : q.outlet = none ∧ q.pending.stubs = {} ∨ ∃ link, q.outlet = some ⟨link, true⟩
  next : 1 ≤ q.pending.nextRid

/-- A peer that only serves; without a connection nothing is open. -/
structure Serves (p : Peer σ) (r : Responder) : Prop where
  requester : p.requester = none
  responder : p.responder = some r
  outlet : p.outlet = r.outlet
  link : r.outlet = none ∧ r.inbound = {} ∨ ∃ link, r.outlet = some ⟨link, true⟩

variable {p : Peer σ} {q q' : Requester} {r r' : Responder} {act : Effects × Peer σ}

/-- What a peer that asks has done, as an act of its requester. -/
structure Asked (p : Peer σ) (es : Requester.Effects) (q' : Requester) (act : Effects × Peer σ) :
    Prop where
  effects : act.1.filterMap Dialogue.sent? = es.filterMap Feed.asked?
  requester : act.2.requester = some q'
  responder : act.2.responder = p.responder
  outlet : act.2.outlet = p.outlet

/-- What a peer that serves has done, as an act of its responder. -/
structure Answered (p : Peer σ) (es : Responder.Effects) (r' : Responder)
    (act : Effects × Peer σ) : Prop where
  effects : act.1.filterMap Dialogue.sent? = es.filterMap Feed.answered?
  requester : act.2.requester = p.requester
  responder : act.2.responder = some r'
  outlet : act.2.outlet = p.outlet

theorem afterAsking_asked (p : Peer σ) (es : Requester.Effects) (q' : Requester) :
    p.Asked es q' (p.afterAsking es q') where
  effects := by
    rw [afterAsking, List.filterMap_filterMap]
    exact List.filterMap_congr fun e _ => by cases e <;> rfl
  requester := rfl
  responder := rfl
  outlet := rfl

theorem afterAnswering_answered (p : Peer σ) (es : Responder.Effects) (r' : Responder) :
    p.Answered es r' (p.afterAnswering es r') where
  effects := by
    rw [afterAnswering, List.filterMap_filterMap]
    exact List.filterMap_congr fun e _ => by cases e <;> rfl
  requester := rfl
  responder := rfl
  outlet := rfl

theorem Asks.turn {es : Requester.Effects} (h : p.Asks q) (hact : p.Asked es q' act)
    (houtlet : q'.outlet = q.outlet)
    (hidle : q.outlet = none → q.pending.stubs = {} → q'.pending.stubs = {})
    (hnext : q.pending.nextRid ≤ q'.pending.nextRid) : act.2.Asks q' where
  requester := hact.requester
  responder := hact.responder.trans h.responder
  outlet := hact.outlet.trans (h.outlet.trans houtlet.symm)
  link := by
    rw [houtlet]
    exact h.link.imp (fun hnone => ⟨hnone.1, hidle hnone.1 hnone.2⟩) id
  next := Nat.le_trans h.next hnext

theorem Serves.turn {es : Responder.Effects} (h : p.Serves r) (hact : p.Answered es r' act)
    (houtlet : r'.outlet = r.outlet) (hidle : r.outlet = none → r.inbound = {} → r'.inbound = {}) :
    act.2.Serves r' where
  requester := hact.requester.trans h.requester
  responder := hact.responder
  outlet := hact.outlet.trans (h.outlet.trans houtlet.symm)
  link := by
    rw [houtlet]
    exact h.link.imp (fun hnone => ⟨hnone.1, hidle hnone.1 hnone.2⟩) id

theorem Asks.empty (h : p.Asks q) (hfree : p.outlet = none) : q.pending.stubs = {} := by
  refine (h.link.resolve_right fun ⟨link, hlink⟩ => ?_).2
  cases hlink.symm.trans (h.outlet.symm.trans hfree)

theorem Serves.empty (h : p.Serves r) (hfree : p.outlet = none) : r.inbound = {} := by
  refine (h.link.resolve_right fun ⟨link, hlink⟩ => ?_).2
  cases hlink.symm.trans (h.outlet.symm.trans hfree)

theorem Asks.idle (h : p.Asks q) : p.Asked [] q ([], p) :=
  ⟨rfl, h.requester, rfl, rfl⟩

theorem Serves.idle (h : p.Serves r) : p.Answered [] r ([], p) :=
  ⟨rfl, rfl, h.responder, rfl⟩

theorem sends_asked (h : p.Asks q) (os : List Outgoing) :
    p.Asked (Requester.sends os) q (sends os, p) where
  effects := by
    rw [sends, Requester.sends, List.filterMap_map, List.filterMap_map]
    rfl
  requester := h.requester
  responder := rfl
  outlet := rfl

theorem sends_answered (h : p.Serves r) (os : List Outgoing) :
    p.Answered (Responder.sends os) r (sends os, p) where
  effects := by
    rw [sends, Responder.sends, List.filterMap_map, List.filterMap_map]
    rfl
  requester := rfl
  responder := h.responder
  outlet := rfl

theorem mem_asked_sends {os : List Outgoing} {m : Message}
    (h : m ∈ (Requester.sends os).filterMap Feed.asked?) : ∃ o ∈ os, o.message = m := by
  obtain ⟨e, he, hm⟩ := List.mem_filterMap.mp h
  obtain ⟨o, ho, rfl⟩ := List.mem_map.mp he
  exact ⟨o, ho, Option.some.inj hm⟩

theorem mem_answered_sends {os : List Outgoing} {m : Message}
    (h : m ∈ (Responder.sends os).filterMap Feed.answered?) : ∃ o ∈ os, o.message = m := by
  obtain ⟨e, he, hm⟩ := List.mem_filterMap.mp h
  obtain ⟨o, ho, rfl⟩ := List.mem_map.mp he
  exact ⟨o, ho, Option.some.inj hm⟩

theorem sends_asked_turn (q : Requester) (outlet : Option Outlet) {m : Message}
    (hm : ∀ rid, m.signal? rid = none) : q.Turn (Requester.sends (sendTo outlet m)) q := by
  refine .rests rfl rfl fun m' hm' rid => ?_
  obtain ⟨o, ho, rfl⟩ := mem_asked_sends hm'
  rw [message_of_mem_sendTo ho]
  exact hm rid

theorem sends_answered_turn (r : Responder) (outlet : Option Outlet) {m : Message}
    (hm : ∀ rid, m.ending? rid = none) : r.Turn (Responder.sends (sendTo outlet m)) r := by
  refine .rests rfl rfl fun m' hm' rid => ?_
  obtain ⟨o, ho, rfl⟩ := mem_answered_sends hm'
  rw [message_of_mem_sendTo ho]
  exact hm rid

/-! ### Tasks -/

section
variable [ValueTree σ]

theorem runTask_asked (h : p.Asks q) (now : Timestamp) (task : PeerTask) :
    ∃ es q', p.Asked es q' (p.runTask now task) ∧ q.Turn es q' := by
  cases task with
  | flush =>
    have hrun : p.runTask now .flush = p.afterAsking q.flush.1 q.flush.2 := by
      simp only [runTask, h.requester]
    rw [hrun]
    exact ⟨_, _, p.afterAsking_asked _ _, q.flush_turn⟩
  | respond t =>
    have hrun : p.runTask now (.respond t) = ([], p) := by
      simp only [runTask, h.responder]
    rw [hrun]
    exact ⟨[], q, h.idle, .refl q⟩
  | ping link => exact ⟨_, _, sends_asked h _, sends_asked_turn q _ fun _ => rfl⟩

theorem runTask_answered (h : p.Serves r) (now : Timestamp) (task : PeerTask) :
    ∃ es r', p.Answered es r' (p.runTask now task) ∧ r.Turn es r' := by
  cases task with
  | flush =>
    have hrun : p.runTask now .flush = ([], p) := by
      simp only [runTask, h.requester]
    rw [hrun]
    exact ⟨[], r, h.idle, .refl r⟩
  | respond t =>
    have hrun : p.runTask now (.respond t) =
        { p with tree := (r.run now p.tree t).2.2 }.afterAnswering (r.run now p.tree t).1
          (r.run now p.tree t).2.1 := by
      simp only [runTask, h.responder]
    rw [hrun]
    exact ⟨_, _, ⟨(afterAnswering_answered _ _ _).effects, rfl, rfl, rfl⟩, r.run_turn now _ t⟩
  | ping link => exact ⟨_, _, sends_answered h _, sends_answered_turn r _ fun _ => rfl⟩

theorem runWork_asked (h : p.Asks q) (now : Timestamp) (work : Work PeerTask)
    (worker : Worker PeerTask) :
    ∃ es q', p.Asked es q' (p.runWork now work worker) ∧ q.Turn es q' := by
  unfold runWork
  obtain ⟨task, worker⟩ := worker.start work
  cases task with
  | none => exact ⟨[], q, ⟨rfl, h.requester, rfl, rfl⟩, .refl q⟩
  | some task =>
    have h' : ({ p with worker } : Peer σ).Asks q :=
      ⟨h.requester, h.responder, h.outlet, h.link, h.next⟩
    obtain ⟨es, q', hact, hturn⟩ := runTask_asked h' now task
    exact ⟨es, q', ⟨hact.effects, hact.requester, hact.responder, hact.outlet⟩, hturn⟩

theorem runWork_answered (h : p.Serves r) (now : Timestamp) (work : Work PeerTask)
    (worker : Worker PeerTask) :
    ∃ es r', p.Answered es r' (p.runWork now work worker) ∧ r.Turn es r' := by
  unfold runWork
  obtain ⟨task, worker⟩ := worker.start work
  cases task with
  | none => exact ⟨[], r, ⟨rfl, rfl, h.responder, rfl⟩, .refl r⟩
  | some task =>
    have h' : ({ p with worker } : Peer σ).Serves r :=
      ⟨h.requester, h.responder, h.outlet, h.link⟩
    obtain ⟨es, r', hact, hturn⟩ := runTask_answered h' now task
    exact ⟨es, r', ⟨hact.effects, hact.requester, hact.responder, hact.outlet⟩, hturn⟩

end

/-! ### Messages -/

/-- A message that arrives at the client and concerns no stream. -/
theorem skips_down {m : Message} (hm : ∀ rid, m.ending? rid = none) (q : Requester)
    (r : Responder) (up down : List Message) :
    (lanes q r up (m :: down)).Step (lanes q r up down) := by
  refine .skips (fun rid => ?_) (Nat.le_refl _)
  simp only [lanes, List.filterMap_cons, hm]

theorem skips_up {m : Message} (hm : ∀ rid, m.signal? rid = none) (q : Requester)
    (r : Responder) (up down : List Message) :
    (lanes q r (m :: up) down).Step (lanes q r up down) := by
  refine .skips (fun rid => ?_) (Nat.le_refl _)
  simp only [lanes, List.filterMap_cons, hm]

/-- The client takes a message. One that is not a response concerns no stream. -/
theorem dispatch_asked (h : p.Asks q) {link : Nat} (hlink : q.outlet = some ⟨link, true⟩)
    (now : Timestamp) (m : Message) (r : Responder) (up down : List Message) :
    ∃ es q', p.Asked es q' (p.dispatch now (.message m)) ∧ q'.outlet = q.outlet ∧
      q.pending.nextRid ≤ q'.pending.nextRid ∧
      (lanes q r up (m :: down)).Steps (lanes q' r (up ++ es.filterMap Feed.asked?) down) := by
  have hrests : ∀ {es}, (∀ rid, m.ending? rid = none) → q.Turn es q →
      (lanes q r up (m :: down)).Steps (lanes q r (up ++ es.filterMap Feed.asked?) down) :=
    fun hm hturn => .head (skips_down hm q r up down) (hturn.bound link hlink r up down)
  cases m with
  | ping => exact ⟨[], q, h.idle, rfl, Nat.le_refl _, hrests (fun _ => rfl) (.refl q)⟩
  | request req =>
    have hdispatch : p.dispatch now (.message (.request req)) =
        (if req.method = .close then [] else p.refuse req.rid noResponder, p) := by
      simp only [dispatch, dispatchRequest, h.responder]
    rw [hdispatch]
    split
    · exact ⟨[], q, h.idle, rfl, Nat.le_refl _, hrests (fun _ => rfl) (.refl q)⟩
    · exact ⟨_, q, sends_asked h _, rfl, Nat.le_refl _,
        hrests (fun _ => rfl) (sends_asked_turn q _ fun _ => rfl)⟩
  | response resp =>
    have hdispatch : p.dispatch now (.message (.response resp)) =
        p.afterAsking (q.handleResponse now resp).1 (q.handleResponse now resp).2 := by
      simp only [dispatch, dispatchResponse, h.requester]
    obtain ⟨houtlet, hnext, hsteps⟩ := Requester.takes_response hlink now resp r up down
    rw [hdispatch]
    exact ⟨_, _, p.afterAsking_asked _ _, houtlet, hnext, hsteps⟩

/-- The server takes a message. One that is not a request concerns no stream. -/
theorem dispatch_answered (h : p.Serves r) {link : Nat} (hlink : r.outlet = some ⟨link, true⟩)
    (now : Timestamp) {m : Message} {q : Requester} {up down : List Message}
    (hsound : (lanes q r (m :: up) down).Sound) :
    ∃ es r', p.Answered es r' (p.dispatch now (.message m)) ∧ r'.outlet = r.outlet ∧
      (lanes q r (m :: up) down).Steps (lanes q r' up (down ++ es.filterMap Feed.answered?)) := by
  have hrests : (∀ rid, m.signal? rid = none) →
      (lanes q r (m :: up) down).Steps (lanes q r up (down ++ [])) := by
    intro hm
    rw [List.append_nil]
    exact .single (skips_up hm q r up down)
  cases m with
  | ping => exact ⟨[], r, h.idle, rfl, hrests fun _ => rfl⟩
  | response resp =>
    have hdispatch : p.dispatch now (.message (.response resp)) = ([], p) := by
      simp only [dispatch, dispatchResponse, h.requester]
    rw [hdispatch]
    exact ⟨[], r, h.idle, rfl, hrests fun _ => rfl⟩
  | request req =>
    have hdispatch : p.dispatch now (.message (.request req)) =
        p.afterAnswering (r.handle req).1 (r.handle req).2 := by
      simp only [dispatch, dispatchRequest, h.responder]
    obtain ⟨houtlet, hsteps⟩ := Responder.takes_request hlink hsound
    rw [hdispatch]
    exact ⟨_, _, p.afterAnswering_answered _ _, houtlet, hsteps⟩

end Peer

/-! ## The invariant -/

namespace Dialogue

/-- While both peers have the connection their streams are sound; else nothing is on its way. -/
structure Kept (d : Dialogue σ) (q : Requester) (r : Responder) : Prop where
  asks : d.client.Asks q
  serves : d.server.Serves r
  sound : d.isWhole = true → (lanes q r d.up d.down).Sound
  lost : d.isWhole = false → d.up = [] ∧ d.down = []

variable {d : Dialogue σ} {q q' : Requester} {r r' : Responder} {c : Encoding}

theorem Kept.start (t t' : σ) : (start t t').Kept {} {} where
  asks := ⟨rfl, rfl, rfl, .inl ⟨rfl, rfl⟩, Nat.le_refl 1⟩
  serves := ⟨rfl, rfl, rfl, .inl ⟨rfl, rfl⟩⟩
  sound := nofun
  lost := fun _ => ⟨rfl, rfl⟩

theorem Kept.clientLink (h : d.Kept q r) (hwhole : d.isWhole = true) :
    ∃ link, q.outlet = some ⟨link, true⟩ := by
  refine h.asks.link.resolve_left fun hnone => ?_
  rw [isWhole, h.asks.outlet, hnone.1] at hwhole
  cases hwhole

theorem Kept.serverLink (h : d.Kept q r) (hwhole : d.isWhole = true) :
    ∃ link, r.outlet = some ⟨link, true⟩ := by
  refine h.serves.link.resolve_left fun hnone => ?_
  rw [isWhole, h.serves.outlet, hnone.1, Option.isSome_none, Bool.and_false] at hwhole
  cases hwhole

/-- The client has acted, and `down` is still on its way to it. -/
theorem Kept.afterClient (h : d.Kept q r) {act : Peer.Effects × Peer σ} (hasks : act.2.Asks q')
    (houtlet : act.2.outlet = d.client.outlet) {down : List Message}
    (hlost : d.isWhole = false → down = [])
    (hsound : d.isWhole = true →
      (lanes q' r (d.up ++ act.1.filterMap sent?) down).Sound) :
    ({ d with down }.afterClient act).Kept q' r := by
  have hsame : ({ d with down }.afterClient act).isWhole = d.isWhole := by
    rw [isWhole, isWhole, Dialogue.afterClient, houtlet]
  have hup : ({ d with down }.afterClient act).up =
      if d.isWhole then d.up ++ act.1.filterMap sent? else [] := rfl
  refine ⟨hasks, h.serves, fun hwhole => ?_, fun hbroken => ?_⟩
  · rw [hsame] at hwhole
    rw [hup, if_pos hwhole]
    exact hsound hwhole
  · rw [hsame] at hbroken
    rw [hup, hbroken]
    exact ⟨rfl, hlost hbroken⟩

theorem Kept.afterServer (h : d.Kept q r) {act : Peer.Effects × Peer σ} (hserves : act.2.Serves r')
    (houtlet : act.2.outlet = d.server.outlet) {up : List Message}
    (hlost : d.isWhole = false → up = [])
    (hsound : d.isWhole = true →
      (lanes q r' up (d.down ++ act.1.filterMap sent?)).Sound) :
    ({ d with up }.afterServer act).Kept q r' := by
  have hsame : ({ d with up }.afterServer act).isWhole = d.isWhole := by
    rw [isWhole, isWhole, Dialogue.afterServer, houtlet]
  have hdown : ({ d with up }.afterServer act).down =
      if d.isWhole then d.down ++ act.1.filterMap sent? else [] := rfl
  refine ⟨h.asks, hserves, fun hwhole => ?_, fun hbroken => ?_⟩
  · rw [hsame] at hwhole
    rw [hdown, if_pos hwhole]
    exact hsound hwhole
  · rw [hsame] at hbroken
    rw [hdown, hbroken]
    exact ⟨hlost hbroken, rfl⟩

theorem Kept.turnClient (h : d.Kept q r) {act : Peer.Effects × Peer σ} {es : Requester.Effects}
    (hact : d.client.Asked es q' act) (hturn : q.Turn es q') : (d.afterClient act).Kept q' r := by
  have hasks := h.asks.turn hact hturn.outlet hturn.unbound hturn.next
  refine h.afterClient hasks hact.outlet (fun hbroken => (h.lost hbroken).2) fun hwhole => ?_
  obtain ⟨link, hlink⟩ := h.clientLink hwhole
  rw [hact.effects]
  exact (hturn.bound link hlink r d.up d.down).sound (h.sound hwhole)

theorem Kept.turnServer (h : d.Kept q r) {act : Peer.Effects × Peer σ} {es : Responder.Effects}
    (hact : d.server.Answered es r' act) (hturn : r.Turn es r') :
    (d.afterServer act).Kept q r' := by
  have hserves := h.serves.turn hact hturn.outlet fun _ => hturn.unbound
  refine h.afterServer hserves hact.outlet (fun hbroken => (h.lost hbroken).1) fun hwhole => ?_
  obtain ⟨link, hlink⟩ := h.serverLink hwhole
  have hsound := h.sound hwhole
  rw [hact.effects]
  exact (hturn.bound link hlink q d.up d.down hsound).sound hsound

/-! ## Moves -/

theorem Kept.ask (h : d.Kept q r) {α : Type} (act : Requester → α × Requester.Effects × Requester)
    (hturn : q.Turn (act q).2.1 (act q).2.2) : ∃ q', (d.ask act).Kept q' r := by
  have hask : d.ask act = d.afterClient (d.client.afterAsking (act q).2.1 (act q).2.2) := by
    simp only [Dialogue.ask, Peer.ask, h.asks.requester, Option.map_some]
  rw [hask]
  exact ⟨_, h.turnClient (d.client.afterAsking_asked _ _) hturn⟩

theorem Kept.change (h : d.Kept q r) (act : σ → List (Notice Binding) × σ) :
    ∃ r', (d.afterServer (d.server.change act)).Kept q r' := by
  have hchange : d.server.change act =
      { d.server with tree := (act d.server.tree).2 }.afterAnswering
        (r.onChanges (act d.server.tree).1).1 (r.onChanges (act d.server.tree).1).2 := by
    simp only [Peer.change, h.serves.responder]
  have hact : d.server.Answered (r.onChanges (act d.server.tree).1).1
      (r.onChanges (act d.server.tree).1).2 (d.server.change act) := by
    rw [hchange]
    exact ⟨(Peer.afterAnswering_answered _ _ _).effects, rfl, rfl, rfl⟩
  exact ⟨_, h.turnServer hact (r.onChanges_turn _)⟩

theorem lanes_read_up (q : Requester) (r : Responder) (m : Message) (up down : List Message) :
    lanes q r (m.read :: up) down = lanes q r (m :: up) down := by
  simp only [lanes, List.filterMap_cons, Message.signal?_read]

theorem lanes_read_down (q : Requester) (r : Responder) (m : Message) (up down : List Message) :
    lanes q r up (m.read :: down) = lanes q r up (m :: down) := by
  simp only [lanes, List.filterMap_cons, Message.ending?_read]

theorem Kept.takeUp (h : d.Kept q r) (hlegible : d.Legible c) (now : Timestamp) :
    ∃ r', (d.takeUp c now).Kept q r' := by
  rw [Dialogue.takeUp]
  cases hup : d.up with
  | nil => exact ⟨r, h⟩
  | cons m up =>
    have hwhole : d.isWhole = true := by
      refine Bool.of_not_eq_false fun hbroken => ?_
      rw [(h.lost hbroken).1] at hup
      cases hup
    have hcarry := hlegible m (List.mem_append_left _ (hup ▸ List.mem_cons_self))
    have hsound := h.sound hwhole
    obtain ⟨link, hlink⟩ := h.serverLink hwhole
    rw [hup, ← lanes_read_up] at hsound
    obtain ⟨es, r', hact, houtlet, hsteps⟩ := Peer.dispatch_answered h.serves hlink now hsound
    have hserves := h.serves.turn hact houtlet fun hnone => nomatch hlink.symm.trans hnone
    dsimp only
    rw [hcarry]
    refine ⟨r', h.afterServer hserves hact.outlet (fun hbroken => ?_) fun _ => ?_⟩
    · cases hwhole.symm.trans hbroken
    · rw [hact.effects]
      exact hsteps.sound hsound

theorem Kept.takeDown (h : d.Kept q r) (hlegible : d.Legible c) (now : Timestamp) :
    ∃ q', (d.takeDown c now).Kept q' r := by
  rw [Dialogue.takeDown]
  cases hdown : d.down with
  | nil => exact ⟨q, h⟩
  | cons m down =>
    have hwhole : d.isWhole = true := by
      refine Bool.of_not_eq_false fun hbroken => ?_
      rw [(h.lost hbroken).2] at hdown
      cases hdown
    have hcarry := hlegible m (List.mem_append_right _ (hdown ▸ List.mem_cons_self))
    have hsound := h.sound hwhole
    obtain ⟨link, hlink⟩ := h.clientLink hwhole
    rw [hdown, ← lanes_read_down] at hsound
    obtain ⟨es, q', hact, houtlet, hnext, hsteps⟩ :=
      Peer.dispatch_asked h.asks hlink now m.read r d.up down
    have hasks := h.asks.turn hact houtlet (fun hnone => nomatch hlink.symm.trans hnone) hnext
    dsimp only
    rw [hcarry]
    refine ⟨q', h.afterClient hasks hact.outlet (fun hbroken => ?_) fun _ => ?_⟩
    · cases hwhole.symm.trans hbroken
    · rw [hact.effects]
      exact hsteps.sound hsound

section
variable [ValueTree σ]

theorem Kept.runClient (h : d.Kept q r) (c : Encoding) (now : Timestamp) (place : Nat) :
    ∃ q', (d.after c (.runClient now place)).Kept q' r := by
  rw [Dialogue.after]
  cases hwork : d.client.workAt? now place with
  | none => exact ⟨q, h⟩
  | some act =>
    obtain ⟨x, -, rfl⟩ := Option.map_eq_some_iff.mp hwork
    obtain ⟨es, q', hact, hturn⟩ := Peer.runWork_asked h.asks now x.1 x.2
    exact ⟨q', h.turnClient hact hturn⟩

theorem Kept.runServer (h : d.Kept q r) (c : Encoding) (now : Timestamp) (place : Nat) :
    ∃ r', (d.after c (.runServer now place)).Kept q r' := by
  rw [Dialogue.after]
  cases hwork : d.server.workAt? now place with
  | none => exact ⟨r, h⟩
  | some act =>
    obtain ⟨x, -, rfl⟩ := Option.map_eq_some_iff.mp hwork
    obtain ⟨es, r', hact, hturn⟩ := Peer.runWork_answered h.serves now x.1 x.2
    exact ⟨r', h.turnServer hact hturn⟩

/-! ### Connections -/

theorem Kept.hangUpClient (h : d.Kept q r) (c : Encoding) :
    ∃ q', (d.after c .hangUpClient).Kept q' r := by
  have hdisconnect : d.client.disconnect.2 =
      { (d.client.afterAsking q.disconnect.1 q.disconnect.2).2 with outlet := none } := by
    simp only [Peer.disconnect, Peer.disconnectRequester, h.asks.requester,
      Peer.disconnectResponder, Peer.afterAsking, h.asks.responder]
  have hasks : d.client.disconnect.2.Asks q.disconnect.2 := by
    rw [hdisconnect]
    exact ⟨rfl, h.asks.responder, rfl, .inl ⟨rfl, rfl⟩, h.asks.next⟩
  have hbroken : (d.after c .hangUpClient).isWhole = false := by
    show (d.client.disconnect.2.outlet.isSome && d.server.outlet.isSome) = false
    rw [hasks.outlet]
    rfl
  refine ⟨_, hasks, h.serves, ?_, fun _ => ⟨rfl, rfl⟩⟩
  exact fun hwhole => nomatch hbroken.symm.trans hwhole

theorem Kept.hangUpServer (h : d.Kept q r) (c : Encoding) :
    ∃ r', (d.after c .hangUpServer).Kept q r' := by
  have hserves : d.server.disconnect.2.Serves (r.disconnect d.server.tree).1 := by
    have hdisconnect : d.server.disconnect.2 =
        { d.server with
          responder := some (r.disconnect d.server.tree).1
          tree := (r.disconnect d.server.tree).2, outlet := none } := by
      simp only [Peer.disconnect, Peer.disconnectRequester, h.serves.requester,
        Peer.disconnectResponder, h.serves.responder]
    rw [hdisconnect]
    exact ⟨h.serves.requester, rfl, rfl, .inl ⟨rfl, rfl⟩⟩
  have hbroken : (d.after c .hangUpServer).isWhole = false := by
    show (d.client.outlet.isSome && d.server.disconnect.2.outlet.isSome) = false
    rw [hserves.outlet, Bool.and_comm]
    rfl
  refine ⟨_, h.asks, hserves, ?_, fun _ => ⟨rfl, rfl⟩⟩
  exact fun hwhole => nomatch hbroken.symm.trans hwhole

/-- On a new connection nothing is open at either end. -/
theorem lanes_sound (hstubs : q.pending.stubs = {}) (hnext : 1 ≤ q.pending.nextRid)
    (hinbound : r.inbound = {}) : (lanes q r [] []).Sound := by
  have hlane : ∀ rid, (lanes q r [] []).lane rid = {} := by
    intro rid
    simp only [lanes, Requester.awaits, PendingTable.get?, hstubs, Responder.serves, hinbound]
    rfl
  refine ⟨hnext, fun rid _ => hlane rid, fun rid => ?_⟩
  rw [hlane rid]
  exact .start

theorem Kept.connect (h : d.Kept q r) (c : Encoding) (link : Nat) :
    ∃ q' r', (d.after c (.connect link)).Kept q' r' := by
  rw [Dialogue.after]
  split
  · exact ⟨q, r, h⟩
  · rename_i hfree
    rw [Bool.or_eq_true, not_or] at hfree
    obtain ⟨hclient, hserver⟩ := hfree
    rw [Option.not_isSome_iff_eq_none] at hclient hserver
    have hasks : (d.client.connect link).Asks (q.connect link) :=
      ⟨by rw [Peer.connect, h.asks.requester]; rfl, by rw [Peer.connect, h.asks.responder]; rfl,
        rfl, .inr ⟨link, rfl⟩, h.asks.next⟩
    have hserves : (d.server.connect link).Serves (r.connect link) :=
      ⟨by rw [Peer.connect, h.serves.requester]; rfl, by rw [Peer.connect, h.serves.responder]; rfl,
        rfl, .inr ⟨link, rfl⟩⟩
    have hstubs := h.asks.empty hclient
    have hinbound := h.serves.empty hserver
    obtain ⟨hup, hdown⟩ := h.lost (by rw [isWhole, hclient]; rfl)
    refine ⟨_, _, hasks, hserves, fun _ => ?_, fun hbroken => ?_⟩
    · rw [hup, hdown]
      exact lanes_sound hstubs h.asks.next hinbound
    · cases hbroken

/-! ## Runs -/

theorem Kept.after (h : d.Kept q r) (hlegible : d.Legible c) (m : Move σ) :
    ∃ q' r', (d.after c m).Kept q' r' := by
  have client {d' : Dialogue σ} (hkept : ∃ q', d'.Kept q' r) : ∃ q' r', d'.Kept q' r' :=
    hkept.imp fun _ hkept => ⟨r, hkept⟩
  have server {d' : Dialogue σ} (hkept : ∃ r', d'.Kept q r') : ∃ q' r', d'.Kept q' r' := ⟨q, hkept⟩
  cases m with
  | list path handler => exact client (h.ask _ (q.send_turn (by exact nofun) handler))
  | invoke path params handler => exact client (h.ask _ (q.send_turn (by exact nofun) handler))
  | set path value permit handler => exact client (h.ask _ (q.send_turn (by exact nofun) handler))
  | remove path handler => exact client (h.ask _ (q.send_turn (by exact nofun) handler))
  | subscribe path qos handler => exact client (h.ask _ (q.subscribe_turn path qos handler))
  | unsubscribe sid => exact client (h.ask _ (q.unsubscribe_turn sid))
  | close rid => exact client (h.ask _ (q.close_turn rid))
  | change act => exact server (h.change act)
  | runClient now place => exact client (h.runClient c now place)
  | runServer now place => exact server (h.runServer c now place)
  | deliverUp now => exact server (h.takeUp hlegible now)
  | deliverDown now => exact client (h.takeDown hlegible now)
  | hangUpClient => exact client (h.hangUpClient c)
  | hangUpServer => exact server (h.hangUpServer c)
  | connect link => exact h.connect c link

theorem Reachable.kept {t t' : σ} (h : Reachable c t t' d) : ∃ q r, d.Kept q r := by
  induction h with
  | start => exact ⟨_, _, .start t t'⟩
  | move h m _ ih =>
    obtain ⟨q, r, hkept⟩ := ih
    exact hkept.after h.legible m

/-- When no message is on its way between two peers that have the connection, the requests that are
open at one end are the streams that are open at the other. Tasks that wait do not matter. -/
theorem ends_agree {t t' : σ} (h : Reachable c t t' d) (hwhole : d.isWhole = true)
    (hup : d.up = []) (hdown : d.down = []) :
    ∃ q r, d.client.requester = some q ∧ d.server.responder = some r ∧
      ∀ rid, q.awaits rid = r.serves rid := by
  obtain ⟨q, r, hkept⟩ := h.kept
  refine ⟨q, r, hkept.asks.requester, hkept.serves.responder, fun rid => ?_⟩
  have hsound := hkept.sound hwhole
  rw [hup, hdown] at hsound
  exact (hsound.phase rid).agree rfl rfl

end

/-! ## A run -/

/-- All messages can be read after each of the moves. -/
def Follows [ValueTree σ] (c : Encoding) : Dialogue σ → List (Move σ) → Prop
  | _, [] => True
  | d, m :: moves => (d.after c m).Legible c ∧ Follows c (d.after c m) moves

theorem Reachable.foldl [ValueTree σ] {t t' : σ} : ∀ (moves : List (Move σ)) (d : Dialogue σ),
    Reachable c t t' d → Follows c d moves →
    Reachable c t t' (moves.foldl (Dialogue.after c) d)
  | [], _, h, _ => h
  | m :: moves, _, h, ⟨hlegible, hrest⟩ => Reachable.foldl moves _ (h.move m hlegible) hrest

def midday : Timestamp := ⟨43200, 0⟩

/-- Two listings are asked for. The first is answered and closed at the same time, so the answer is
answered with another close. -/
def crossingMoves : List (Move (MemoryTree Binding)) :=
  [.connect 1, .list "/" none, .list "/" none, .deliverUp midday, .runServer midday 0, .close 1,
    .deliverUp midday, .deliverUp midday, .runServer midday 0, .deliverDown midday,
    .deliverDown midday, .deliverUp midday]

def crossed : Dialogue (MemoryTree Binding) :=
  crossingMoves.foldl (Dialogue.after (.frames .json)) (start {} {})

theorem reachable_crossed : Reachable (.frames .json) {} {} crossed := by
  have hread : ∀ {d : Dialogue (MemoryTree Binding)},
      (d.up ++ d.down).map (Encoding.frames .json).carry =
        (d.up ++ d.down).map (fun m => .ok (.message m.read)) → d.Legible (.frames .json) :=
    List.map_inj_left.mp
  refine Reachable.foldl crossingMoves _ .start ?_
  exact ⟨hread rfl, hread rfl, hread rfl, hread rfl, hread rfl, hread rfl, hread rfl, hread rfl,
    hread rfl, hread rfl, hread rfl, hread rfl, trivial⟩

theorem crossed_ends_agree : Reachable (.frames .json) {} {} crossed ∧ crossed.isWhole = true ∧
    crossed.up = [] ∧ crossed.down = [] ∧
    ∃ q r, crossed.client.requester = some q ∧ crossed.server.responder = some r ∧
      q.awaits 1 = none ∧ r.serves 1 = none ∧
      q.awaits 2 = some (.list, some "/") ∧ r.serves 2 = some (.list, some "/") := by
  obtain ⟨q, r, hq, hr, hagree⟩ := ends_agree reachable_crossed rfl rfl rfl
  have hfirst : crossed.client.requester.bind (·.awaits 1) = none := rfl
  have hsecond : crossed.client.requester.bind (·.awaits 2) = some (.list, some "/") := rfl
  rw [hq, Option.bind_some] at hfirst hsecond
  exact ⟨reachable_crossed, rfl, rfl, rfl, q, r, hq, hr, hfirst, (hagree 1).symm.trans hfirst,
    hsecond, (hagree 2).symm.trans hsecond⟩

end Dialogue
end PeerLink
