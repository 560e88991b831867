import PeerLink.Proofs.Dialogue
import PeerLink.Proofs.FeedRuns
import PeerLink.Proofs.Replies
import PeerLink.Proofs.RequestStreams

/-! # Steps of a dialogue

All that either side does is a number of steps of streams.

* `Requester.Turn`, `Responder.Turn`: what a side does by itself.
* `Requester.takes_response`, `Responder.takes_request`: what it does when a message arrives.
-/

namespace PeerLink
set_option autoImplicit false

open Dialogue (lanes)

variable {σ : Type} [ValueTree σ]

/-! ## The requester's side -/

/-- What a requester does by itself. -/
structure Requester.Turn (q : Requester) (es : Effects) (q' : Requester) : Prop where
  outlet : q'.outlet = q.outlet
  bound : ∀ link, q.outlet = some ⟨link, true⟩ → ∀ r up down,
    (lanes q r up down).Steps (lanes q' r (up ++ es.filterMap Feed.asked?) down)
  unbound : q.outlet = none → q.pending.stubs = {} → q'.pending.stubs = {}
  next : q.pending.nextRid ≤ q'.pending.nextRid

namespace Requester
variable {q q' q'' : Requester} {es es' : Effects}

/-- Messages that concern no stream. -/
def Unrelated (es : Effects) : Prop :=
  ∀ m ∈ es.filterMap Feed.asked?, ∀ rid, m.signal? rid = none

theorem Unrelated.of_silent (h : es.filterMap Feed.asked? = []) : Unrelated es :=
  fun _ hm => absurd (h ▸ hm) List.not_mem_nil

theorem Turn.rests (houtlet : q'.outlet = q.outlet) (hpending : q'.pending = q.pending)
    (hes : Unrelated es) : q.Turn es q' where
  outlet := houtlet
  bound := by
    intro _ _ r up down
    refine .single (.skips (fun rid => ?_) (Nat.le_of_eq (congrArg (·.nextRid) hpending.symm)))
    have hnone : (es.filterMap Feed.asked?).filterMap (Message.signal? rid) = [] :=
      List.filterMap_eq_nil_iff.mpr fun m hm => hes m hm rid
    simp only [lanes, awaits, hpending, List.filterMap_append, hnone, List.append_nil]
  unbound := fun _ hstubs => hpending ▸ hstubs
  next := Nat.le_of_eq (congrArg (·.nextRid) hpending.symm)

theorem Turn.refl (q : Requester) : q.Turn [] q := .rests rfl rfl (.of_silent rfl)

theorem Turn.trans (h : q.Turn es q') (h' : q'.Turn es' q'') : q.Turn (es ++ es') q'' where
  outlet := h'.outlet.trans h.outlet
  bound := by
    intro link hlink r up down
    rw [List.filterMap_append, ← List.append_assoc]
    exact (h.bound link hlink r up down).trans
      (h'.bound link (h.outlet.trans hlink) r _ down)
  unbound := fun hnone hstubs => h'.unbound (h.outlet.trans hnone) (h.unbound hnone hstubs)
  next := Nat.le_trans h.next h'.next

theorem awaits_insert {q' : Requester} {stub : Stub}
    (h : q'.pending = q.pending.allocate.2.insert stub) (rid : Nat) :
    q'.awaits rid = if rid = stub.rid then some (stub.method, stub.path) else q.awaits rid := by
  have hget : (q.pending.allocate.2.insert stub).get? rid =
      if rid = stub.rid then some stub else q.pending.get? rid :=
    Table.get?_insert q.pending.stubs stub.rid rid stub
  rw [awaits, h, hget]
  split
  · rfl
  · rfl

theorem awaits_remove {q' : Requester} {rid : Nat} (h : q'.pending = (q.pending.remove rid).2)
    (rid' : Nat) : q'.awaits rid' = if rid' = rid then none else q.awaits rid' := by
  have hget : (q.pending.remove rid).2.get? rid' =
      if rid' = rid then none else q.pending.get? rid' := Table.get?_erase q.pending.stubs rid rid'
  rw [awaits, h, hget]
  split
  · rfl
  · rfl

/-- A request that is sent opens a stream under a number of its own. -/
theorem asks_lane {stub : Stub} {req : Request} {r : Responder} {up down : List Message}
    (hpending : q'.pending = q.pending.allocate.2.insert stub)
    (hstub : stub.rid = q.pending.allocate.1) (hrid : req.rid = stub.rid)
    (hpurpose : (req.method, req.path) = (stub.method, stub.path)) (hmethod : req.method ≠ .close) :
    (lanes q r up down).Step (lanes q' r (up ++ [.request req]) down) := by
  have hle := q.pending.le_allocate
  have hnext : q'.pending.nextRid = q.pending.allocate.1 + 1 := by rw [hpending]; rfl
  have hlt : stub.rid < q'.pending.nextRid := by omega
  refine .asks stub.rid (stub.method, stub.path) (hstub ▸ hle) hlt (fun hnew => ?_)
    fun rid hne => ?_
  · simp only [lanes, Lane.mk.injEq] at hnew ⊢
    obtain ⟨-, hserved, hup, hdown⟩ := hnew
    rw [awaits_insert hpending, if_pos rfl, List.filterMap_append, hup, ← hpurpose]
    have hsignal : (Message.request req).signal? stub.rid =
        some (.opens (req.method, req.path)) := by
      rw [Message.signal?, if_pos hrid, if_neg hmethod]
    refine ⟨rfl, hserved, ?_, hdown⟩
    rw [List.nil_append, List.filterMap_cons_some hsignal, List.filterMap_nil]
  · have hsignal := Message.signal?_other (hrid.symm ▸ hne : rid ≠ req.rid)
    simp only [lanes]
    rw [awaits_insert hpending, if_neg hne, List.filterMap_append,
      List.filterMap_cons_none hsignal, List.filterMap_nil, List.append_nil]

theorem send_turn (q : Requester) {req : Request} (hmethod : req.method ≠ .close)
    (handler : Handler) : q.Turn (q.send req handler).2.1 (q.send req handler).2.2 := by
  unfold send
  cases houtlet : q.outlet with
  | none => exact .refl q
  | some outlet =>
    have hnext := Nat.le_succ_of_le q.pending.le_allocate
    have hbound : q.outlet ≠ none := houtlet ▸ nofun
    dsimp only
    split
    · refine ⟨houtlet.symm, fun link hlink r up down => ?_, fun hnone => absurd hnone hbound, hnext⟩
      obtain rfl := Option.some.inj (houtlet.symm.trans hlink)
      exact .single (asks_lane rfl rfl rfl rfl hmethod)
    · refine ⟨houtlet.symm, fun _ _ r up down => ?_, fun hnone => absurd hnone hbound, hnext⟩
      rw [List.filterMap_nil, List.append_nil]
      exact .single (.skips (fun rid => rfl) hnext)

/-- The requester closes a stream, and tells the responder. -/
theorem leaves_lane {rid : Nat} {x : Purpose} {r : Responder} {up down : List Message}
    (hawaits : q.awaits rid = some x) (hpending : q'.pending = (q.pending.remove rid).2) :
    (lanes q r up down).Step (lanes q' r (up ++ [.request (.close rid)]) down) := by
  have hafter := awaits_remove hpending
  have hnext : q'.pending.nextRid = q.pending.nextRid := by rw [hpending]; rfl
  refine .moves rid ?_ hnext fun rid' hne => ?_
  · simp only [lanes, hafter, hawaits, if_true, List.filterMap_append]
    simp only [List.filterMap_cons, List.filterMap_nil, Message.signal?, Request.close, if_true]
    exact .leaves
  · have hother := Message.signal?_other (show rid' ≠ (Request.close rid).rid from hne)
    simp only [lanes, hafter, if_neg hne, List.filterMap_append, List.filterMap_cons, hother,
      List.filterMap_nil, List.append_nil]

theorem close_turn (q : Requester) (rid : Nat) :
    q.Turn (q.close rid).2.1 (q.close rid).2.2 := by
  unfold close
  cases hstub : q.pending.get? rid with
  | none =>
    simp only [PendingTable.remove, hstub]
    exact .refl q
  | some stub =>
    simp only [PendingTable.remove, hstub]
    refine ⟨rfl, fun link hlink r up down => ?_, fun _ hstubs => ?_, Nat.le_refl _⟩
    · rw [hlink]
      exact .single (leaves_lane (congrArg (Option.map _) hstub) rfl)
    · rw [PendingTable.get?, hstubs] at hstub
      cases hstub

theorem subscribe_turn (q : Requester) (path : String) (qos : Nat) (handler : Handler) :
    q.Turn (q.subscribe path qos handler).2.1 (q.subscribe path qos handler).2.2 := by
  unfold subscribe
  split
  · obtain ⟨sid, schedule, subscriptions⟩ := q.subscriptions.add path qos handler
    refine .rests rfl rfl (.of_silent ?_)
    cases schedule <;> rfl
  · exact .rests rfl rfl (.of_silent rfl)

theorem unsubscribe_turn (q : Requester) (sid : Nat) :
    q.Turn (q.unsubscribe sid).2.1 (q.unsubscribe sid).2.2 := by
  unfold unsubscribe
  split
  · exact .rests rfl rfl (.of_silent rfl)
  · rename_i handler schedule subscriptions _
    refine .rests rfl rfl (.of_silent ?_)
    cases schedule <;> rfl

theorem sendBatch_turn (q : Requester) (isEmpty : Bool) {req : Request}
    (hmethod : req.method ≠ .close) :
    q.Turn (q.sendBatch isEmpty req).1 (q.sendBatch isEmpty req).2 := by
  unfold sendBatch
  split
  · exact .rests rfl rfl (.of_silent rfl)
  · exact q.send_turn hmethod none

theorem flush_turn (q : Requester) : q.Turn q.flush.1 q.flush.2 := by
  have htaken : q.Turn [] { q with subscriptions := q.subscriptions.takeBatch.2 } :=
    .rests rfl rfl (.of_silent rfl)
  refine htaken.trans ((sendBatch_turn _ _ ?_).trans (sendBatch_turn _ _ ?_))
  · exact nofun
  · exact nofun

/-! ## Responses arrive -/

section
variable {r : Responder} {up down : List Message} {resp : Response}

theorem hears_lane {x : Purpose} (hrid : resp.rid ≠ Response.updateRid)
    (hawaits : q.awaits resp.rid = some x) (hopen : resp.isClosing = false) :
    (lanes q r up (.response resp :: down)).Step (lanes q r up down) := by
  refine .moves resp.rid ?_ rfl fun rid hne => ?_
  · simp only [lanes, hawaits, List.filterMap_cons, Message.ending?, hrid, hopen, ne_eq,
      not_false_eq_true, and_self, if_true]
    exact .hears
  · simp only [lanes, List.filterMap_cons, Message.ending?_other hne]

theorem ends_lane {x : Purpose} (hrid : resp.rid ≠ Response.updateRid)
    (hawaits : q.awaits resp.rid = some x) (hlast : resp.isClosing = true)
    (hpending : q'.pending = (q.pending.remove resp.rid).2) :
    (lanes q r up (.response resp :: down)).Step (lanes q' r up down) := by
  have hafter := awaits_remove hpending
  have hnext : q'.pending.nextRid = q.pending.nextRid := by rw [hpending]; rfl
  refine .moves resp.rid ?_ hnext fun rid hne => ?_
  · simp only [lanes, hafter, hawaits, List.filterMap_cons, Message.ending?, hrid, hlast, ne_eq,
      not_false_eq_true, and_self, if_true]
    exact .ends
  · simp only [lanes, hafter, if_neg hne, List.filterMap_cons, Message.ending?_other hne]

theorem strays_lane (hrid : resp.rid ≠ Response.updateRid) (hawaits : q.awaits resp.rid = none)
    (hopen : resp.isClosing = false) : (lanes q r up (.response resp :: down)).Step
      (lanes q r (up ++ [.request (.close resp.rid)]) down) := by
  refine .moves resp.rid ?_ rfl fun rid hne => ?_
  · simp only [lanes, hawaits, List.filterMap_append, List.filterMap_cons, List.filterMap_nil,
      Message.ending?, Message.signal?, Request.close, hrid, hopen, ne_eq, not_false_eq_true,
      and_self, if_true]
    exact .strays
  · have hother := Message.signal?_other (show rid ≠ (Request.close resp.rid).rid from hne)
    simp only [lanes, List.filterMap_append, List.filterMap_cons, hother, List.filterMap_nil,
      List.append_nil, Message.ending?_other hne]

theorem passes_lane (hrid : resp.rid ≠ Response.updateRid) (hawaits : q.awaits resp.rid = none)
    (hlast : resp.isClosing = true) :
    (lanes q r up (.response resp :: down)).Step (lanes q r up down) := by
  refine .moves resp.rid ?_ rfl fun rid hne => ?_
  · simp only [lanes, hawaits, List.filterMap_cons, Message.ending?, hrid, hlast, ne_eq,
      not_false_eq_true, and_self, if_true]
    exact .passes
  · simp only [lanes, List.filterMap_cons, Message.ending?_other hne]

/-- Values for subscriptions concern no stream. -/
theorem values_lane (hrid : resp.rid = Response.updateRid) (hpending : q'.pending = q.pending) :
    (lanes q r up (.response resp :: down)).Step (lanes q' r up down) := by
  refine .skips (fun rid => ?_) (Nat.le_of_eq (congrArg (·.nextRid) hpending.symm))
  have hnone : (Message.response resp).ending? rid = none :=
    if_neg fun he => he.2 (he.1.symm.trans hrid)
  simp only [lanes, awaits, hpending, List.filterMap_cons, hnone]

theorem handleUpdate_turn (now : Timestamp) (q : Requester) (v : Json.Value) :
    q.Turn (q.handleUpdate now v).1 (q.handleUpdate now v).2 := by
  unfold handleUpdate
  split
  · exact .rests rfl rfl (.of_silent rfl)
  · split
    · exact .rests rfl rfl (.of_silent rfl)
    · exact .rests rfl rfl (.of_silent rfl)

theorem handleUpdates_turn (now : Timestamp) : ∀ (vs : List Json.Value) (q : Requester),
    q.Turn (q.handleUpdates now vs).1 (q.handleUpdates now vs).2
  | [], _ => .rests rfl rfl (.of_silent rfl)
  | v :: vs, q => (q.handleUpdate_turn now v).trans (handleUpdates_turn now vs _)

/-- A response arrives at a requester with a connection. -/
theorem takes_response {link : Nat} (hlink : q.outlet = some ⟨link, true⟩) (now : Timestamp)
    (resp : Response) (r : Responder) (up down : List Message) :
    (q.handleResponse now resp).2.outlet = q.outlet ∧
      q.pending.nextRid ≤ (q.handleResponse now resp).2.pending.nextRid ∧
      (lanes q r up (.response resp :: down)).Steps (lanes (q.handleResponse now resp).2 r
        (up ++ (q.handleResponse now resp).1.filterMap Feed.asked?) down) := by
  unfold handleResponse
  split
  · rename_i hrid
    have hturn := handleUpdates_turn now resp.updates q
    exact ⟨hturn.outlet, hturn.next,
      .head (values_lane hrid rfl) (hturn.bound link hlink r up down)⟩
  · rename_i hrid
    cases hstub : q.pending.get? resp.rid with
    | none =>
      have hawaits : q.awaits resp.rid = none := congrArg (Option.map _) hstub
      dsimp only
      split
      · rename_i hlast
        rw [List.filterMap_nil, List.append_nil]
        exact ⟨rfl, Nat.le_refl _, .single (passes_lane hrid hawaits hlast)⟩
      · rename_i hopen
        rw [hlink]
        exact ⟨rfl, Nat.le_refl _, .single (strays_lane hrid hawaits (Bool.of_not_eq_true hopen))⟩
    | some stub =>
      have hawaits : q.awaits resp.rid = some (stub.method, stub.path) :=
        congrArg (Option.map _) hstub
      dsimp only
      rw [Feed.told_silent, List.append_nil]
      split
      · rename_i hlast
        exact ⟨rfl, Nat.le_refl _, .single (ends_lane hrid hawaits hlast rfl)⟩
      · rename_i hopen
        exact ⟨rfl, Nat.le_refl _, .single (hears_lane hrid hawaits (Bool.of_not_eq_true hopen))⟩

end

end Requester

/-! ## The responder's side -/

/-- What a responder does by itself. -/
structure Responder.Turn (r : Responder) (es : Effects) (r' : Responder) : Prop where
  outlet : r'.outlet = r.outlet
  bound : ∀ link, r.outlet = some ⟨link, true⟩ → ∀ q up down, (lanes q r up down).Sound →
    (lanes q r up down).Steps (lanes q r' up (down ++ es.filterMap Feed.answered?))
  unbound : r.inbound = {} → r'.inbound = {}

namespace Responder
variable {r r' r'' : Responder} {es es' : Effects}

/-- Messages that concern no stream. -/
def Unrelated (es : Effects) : Prop :=
  ∀ m ∈ es.filterMap Feed.answered?, ∀ rid, m.ending? rid = none

theorem unrelated_tidings {es : Registry.Effects} (h : Registry.Tidings es) :
    Unrelated (ofRegistry es) := by
  intro m hm rid
  obtain ⟨e, he, hm⟩ := List.mem_filterMap.mp hm
  obtain ⟨e0, he0, rfl⟩ := List.mem_map.mp he
  cases e0 with
  | schedule t => cases hm
  | send o =>
    obtain ⟨us, hus⟩ := h o he0
    rw [← Option.some.inj hm, hus]
    exact if_neg fun h => h.2 h.1.symm

theorem Turn.rests (houtlet : r'.outlet = r.outlet) (hinbound : r'.inbound = r.inbound)
    (hes : Unrelated es) : r.Turn es r' where
  outlet := houtlet
  bound := by
    intro _ _ q up down _
    refine .single (.skips (fun rid => ?_) (Nat.le_refl _))
    have hnone : (es.filterMap Feed.answered?).filterMap (Message.ending? rid) = [] :=
      List.filterMap_eq_nil_iff.mpr fun m hm => hes m hm rid
    simp only [lanes, serves, hinbound, List.filterMap_append, hnone, List.append_nil]
  unbound := fun hnone => hinbound.trans hnone

theorem Turn.refl (r : Responder) : r.Turn [] r :=
  .rests rfl rfl fun _ hm => absurd hm List.not_mem_nil

theorem Turn.trans (h : r.Turn es r') (h' : r'.Turn es' r'') : r.Turn (es ++ es') r'' where
  outlet := h'.outlet.trans h.outlet
  bound := by
    intro link hlink q up down hsound
    have hsteps := h.bound link hlink q up down hsound
    rw [List.filterMap_append, ← List.append_assoc]
    exact hsteps.trans
      (h'.bound link (h.outlet.trans hlink) q up _ (hsteps.sound hsound))
  unbound := fun hnone => h'.unbound (h.unbound hnone)

theorem serves_erase {rid : Nat} (h : r'.inbound = r.inbound.erase rid) (rid' : Nat) :
    r'.serves rid' = if rid' = rid then none else r.serves rid' := by
  rw [serves, h, Table.get?_erase]
  split
  · rfl
  · rfl

theorem serves_insert {rid : Nat} {c : InboundContext} (h : r'.inbound = r.inbound.insert rid c)
    (rid' : Nat) :
    r'.serves rid' = if rid' = rid then some (c.method, some c.path) else r.serves rid' := by
  rw [serves, h, Table.get?_insert]
  split
  · rfl
  · rfl

theorem reply_bound {link : Nat} (hlink : r.outlet = some ⟨link, true⟩) (resp : Response) :
    (r.reply resp).filterMap Feed.answered? = [.response resp] := by
  rw [reply, hlink]
  rfl

section
variable {q : Requester} {up down : List Message} {req : Request} {resp : Response}

/-- Number zero belongs to no stream. -/
theorem serves_updateRid (h : (lanes q r up down).Sound) : r.serves Response.updateRid = none := by
  have hunused := h.unused Response.updateRid (.inl rfl)
  exact congrArg Lane.served hunused

theorem answers_lane {x : Purpose} (hrid : resp.rid ≠ Response.updateRid)
    (hserves : r.serves resp.rid = some x) (hopen : resp.isClosing = false) :
    (lanes q r up down).Step (lanes q r up (down ++ [.response resp])) := by
  refine .moves resp.rid ?_ rfl fun rid hne => ?_
  · simp only [lanes, hserves, List.filterMap_append, List.filterMap_cons, List.filterMap_nil,
      Message.ending?, hrid, hopen, ne_eq, not_false_eq_true, and_self, if_true]
    exact .answers
  · simp only [lanes, List.filterMap_append, List.filterMap_cons, Message.ending?_other hne,
      List.filterMap_nil, List.append_nil]

theorem finishes_lane {x : Purpose} (hrid : resp.rid ≠ Response.updateRid)
    (hserves : r.serves resp.rid = some x) (hlast : resp.isClosing = true)
    (hinbound : r'.inbound = r.inbound.erase resp.rid) :
    (lanes q r up down).Step (lanes q r' up (down ++ [.response resp])) := by
  have hafter := serves_erase hinbound
  refine .moves resp.rid ?_ rfl fun rid hne => ?_
  · simp only [lanes, hafter, hserves, List.filterMap_append, List.filterMap_cons,
      List.filterMap_nil, Message.ending?, hrid, hlast, ne_eq, not_false_eq_true, and_self,
      if_true]
    exact .finishes
  · simp only [lanes, hafter, if_neg hne, List.filterMap_append, List.filterMap_cons,
      Message.ending?_other hne, List.filterMap_nil, List.append_nil]

theorem give_turn (r : Responder) (t : σ) (a : Option Reply) :
    r.Turn (r.give t a).1 (r.give t a).2.1 := by
  cases a with
  | none => exact .refl r
  | some a =>
    have hserves : ∀ {c}, r.current? a.stream = some c →
        r.serves a.response.rid = some (c.method, some c.path) := fun hcurrent =>
      congrArg (Option.map _) (current?_eq_some.mp hcurrent).1
    have hrid : ∀ {c q up down}, r.current? a.stream = some c → (lanes q r up down).Sound →
        a.response.rid ≠ Response.updateRid := by
      intro c q up down hcurrent hsound he
      have hnone := serves_updateRid hsound
      rw [← he, hserves hcurrent] at hnone
      cases hnone
    have hgiven := r.give_given t a
    generalize r.give t (some a) = given at hgiven ⊢
    obtain ⟨es, r', t'⟩ := given
    dsimp only at hgiven ⊢
    cases hgiven with
    | stale => exact .refl r
    | still hcurrent hopen =>
      refine ⟨rfl, fun link hlink q up down hsound => ?_, id⟩
      rw [reply_bound hlink]
      exact .single (answers_lane (hrid hcurrent hsound) (hserves hcurrent) hopen)
    | last hcurrent hlast =>
      refine ⟨rfl, fun link hlink q up down hsound => ?_, fun hnone => ?_⟩
      · rw [reply_bound hlink]
        exact .single (finishes_lane (hrid hcurrent hsound) (hserves hcurrent) hlast rfl)
      · exact congrArg (·.erase a.response.rid) hnone

theorem onChanges_turn (r : Responder) (ns : List (Notice Binding)) :
    r.Turn (r.onChanges ns).1 (r.onChanges ns).2 :=
  .rests rfl rfl (unrelated_tidings (Registry.onChanges_schedules ns r.registry).tidings)

theorem run_turn (now : Timestamp) (r : Responder) (t : σ) (task : ResponderTask) :
    r.Turn (r.run now t task).1 (r.run now t task).2.1 := by
  by_cases hregistry : ∃ x, task = .registry x
  · obtain ⟨x, rfl⟩ := hregistry
    exact .rests rfl rfl (unrelated_tidings (r.registry.run_tidings now t x))
  · rw [run_call now r t fun x he => hregistry ⟨x, he⟩]
    exact (r.onChanges_turn _).trans (give_turn _ _ _)

/-! ## Requests arrive -/

/-- A number that a message on its way carries is not zero. -/
theorem rid_ne_updateRid (h : (lanes q r (.request req :: up) down).Sound) :
    req.rid ≠ Response.updateRid := by
  intro he
  have hunused := congrArg Lane.up (h.unused req.rid (.inl he))
  have hsignal : (Message.request req).signal? req.rid =
      some (if req.method = .close then .closes else .opens (req.method, req.path)) := if_pos rfl
  simp only [lanes, List.filterMap_cons_some hsignal] at hunused
  cases hunused

theorem releases_lane (hmethod : req.method = .close)
    (hafter : ∀ rid, r'.serves rid = if rid = req.rid then none else r.serves rid) :
    (lanes q r (.request req :: up) down).Step (lanes q r' up down) := by
  refine .moves req.rid ?_ rfl fun rid hne => ?_
  · simp only [lanes, hafter, List.filterMap_cons, Message.signal?, hmethod, if_true]
    exact .releases
  · simp only [lanes, hafter, if_neg hne, List.filterMap_cons, Message.signal?_other hne]

theorem opens_lane {path : String} {token : Nat} (hmethod : req.method ≠ .close)
    (hpath : req.path = some path) (hserves : r.serves req.rid = none)
    (hinbound : r'.inbound = r.inbound.insert req.rid ⟨token, req.method, path⟩) :
    (lanes q r (.request req :: up) down).Step (lanes q r' up down) := by
  have hafter := serves_insert hinbound
  refine .moves req.rid ?_ rfl fun rid hne => ?_
  · simp only [lanes, hafter, hserves, List.filterMap_cons, Message.signal?, hmethod, hpath,
      if_true, if_false]
    exact .opens
  · simp only [lanes, hafter, if_neg hne, List.filterMap_cons, Message.signal?_other hne]

theorem refuses_lane (hmethod : req.method ≠ .close) (hrid : resp.rid = req.rid)
    (hne : req.rid ≠ Response.updateRid) (hlast : resp.isClosing = true)
    (hinbound : r'.inbound = r.inbound) : (lanes q r (.request req :: up) down).Step
      (lanes q r' up (down ++ [.response resp])) := by
  refine .moves req.rid ?_ rfl fun rid hother => ?_
  · simp only [lanes, serves, hinbound, List.filterMap_cons, List.filterMap_append,
      List.filterMap_nil, Message.signal?, Message.ending?, hmethod, hrid, hne, hlast, ne_eq,
      not_false_eq_true, and_self, if_true, if_false]
    exact .refuses
  · have hending := Message.ending?_other (hrid.symm ▸ hother : rid ≠ resp.rid)
    simp only [lanes, serves, hinbound, List.filterMap_cons, List.filterMap_append, hending,
      Message.signal?_other hother, List.filterMap_nil, List.append_nil]

theorem takes_close (hmethod : req.method = .close) :
    (r.closeInbound req.rid).2.outlet = r.outlet ∧
      (lanes q r (.request req :: up) down).Step (lanes q (r.closeInbound req.rid).2 up
        (down ++ (r.closeInbound req.rid).1.filterMap Feed.answered?)) := by
  unfold closeInbound
  cases hcontext : r.inbound.get? req.rid with
  | none =>
    have hnone : r.serves req.rid = none := congrArg (Option.map _) hcontext
    refine ⟨rfl, ?_⟩
    rw [List.filterMap_nil, List.append_nil]
    refine releases_lane hmethod fun rid => ?_
    dsimp only
    split
    · rename_i he
      rw [he, hnone]
    · rfl
  | some c =>
    refine ⟨rfl, ?_⟩
    have hsilent : [ResponderEffect.schedule (.reportClosed c.path c.method)].filterMap
        Feed.answered? = [] := rfl
    rw [hsilent, List.append_nil]
    exact releases_lane hmethod (serves_erase rfl)

theorem takes_open {link : Nat} (hlink : r.outlet = some ⟨link, true⟩)
    (hmethod : req.method ≠ .close) (hrid : req.rid ≠ Response.updateRid) :
    (r.openStream req).2.outlet = r.outlet ∧
      (lanes q r (.request req :: up) down).Step (lanes q (r.openStream req).2 up
        (down ++ (r.openStream req).1.filterMap Feed.answered?)) := by
  unfold openStream
  cases hcheck : r.checkOpen req with
  | error e =>
    refine ⟨rfl, ?_⟩
    dsimp only [reject]
    rw [reply_bound hlink]
    exact refuses_lane hmethod rfl hrid rfl rfl
  | ok path =>
    obtain ⟨hpath, -, hnew⟩ := checkOpen_ok hcheck
    refine ⟨rfl, ?_⟩
    have hsilent : ∀ task : Option ResponderTask,
        (task.toList.map ResponderEffect.schedule).filterMap Feed.answered? = [] := by
      intro task
      cases task <;> rfl
    dsimp only
    rw [hsilent, List.append_nil]
    exact opens_lane hmethod hpath (congrArg (Option.map _) hnew) rfl

theorem takes_batch {link : Nat} (hlink : r.outlet = some ⟨link, true⟩)
    (hmethod : req.method ≠ .close) (hrid : req.rid ≠ Response.updateRid)
    (hsound : (lanes q r (.request req :: up) down).Sound) (op : RegistryOp) :
    (r.applyBatch req.rid op).2.outlet = r.outlet ∧
      (lanes q r (.request req :: up) down).Steps (lanes q (r.applyBatch req.rid op).2 up
        (down ++ (r.applyBatch req.rid op).1.filterMap Feed.answered?)) := by
  have hturn : r.Turn (ofRegistry (r.registry.enqueue op).1) (r.applyBatch req.rid op).2 :=
    .rests rfl rfl (unrelated_tidings (r.registry.enqueue_tidings op))
  refine ⟨rfl, ?_⟩
  have heffects : (r.applyBatch req.rid op).1 =
      ofRegistry (r.registry.enqueue op).1 ++ r.reply (.closed req.rid) := rfl
  rw [heffects, List.filterMap_append, reply_bound hlink, ← List.append_assoc]
  exact (hturn.bound link hlink q _ down hsound).tail (refuses_lane hmethod rfl hrid rfl rfl)

/-- A request arrives at a responder with a connection. -/
theorem takes_request {link : Nat} (hlink : r.outlet = some ⟨link, true⟩)
    (hsound : (lanes q r (.request req :: up) down).Sound) :
    (r.handle req).2.outlet = r.outlet ∧
      (lanes q r (.request req :: up) down).Steps
        (lanes q (r.handle req).2 up (down ++ (r.handle req).1.filterMap Feed.answered?)) := by
  have hrid := rid_ne_updateRid hsound
  unfold handle
  cases hmethod : req.method with
  | close => exact (takes_close hmethod).imp id .single
  | list | invoke | set =>
    exact (takes_open hlink (hmethod ▸ nofun) hrid).imp id .single
  | subscribe => exact takes_batch hlink (hmethod ▸ nofun) hrid hsound _
  | unsubscribe => exact takes_batch hlink (hmethod ▸ nofun) hrid hsound _
  | remove =>
    refine ⟨rfl, ?_⟩
    dsimp only [reject]
    rw [reply_bound hlink]
    exact .single (refuses_lane (hmethod ▸ nofun) rfl hrid rfl rfl)

end

end Responder
end PeerLink
