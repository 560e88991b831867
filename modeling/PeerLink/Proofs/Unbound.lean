import PeerLink.Endpoint
import PeerLink.Proofs.Bound
import PeerLink.Proofs.TimerLife

/-! # Peers without a connection

* `Requester.Unbound`, `Responder.Unbound`, `Peer.Unbound`: neither side has anything open.
* `Endpoint.Calm`: what an endpoint does between the beginning and the end of a session. No session
  begins or ends, no timer is added, and a peer remains without a connection, or bound to its own.
-/

namespace PeerLink
set_option autoImplicit false

/-! ## The requester -/

/-- No connection, and nothing that waits for an answer or a value. -/
structure Requester.Unbound (q : Requester) : Prop where
  outlet : q.outlet = none
  pending : q.pending.stubs = {}
  subscriptions : q.subscriptions.entries = {}
  shut : q.subscriptions.isOpen = false

namespace Requester
variable {q : Requester}

theorem Unbound.start : ({} : Requester).Unbound := ⟨rfl, rfl, rfl, rfl⟩

theorem disconnect_unbound (q : Requester) : q.disconnect.2.Unbound := ⟨rfl, rfl, rfl, rfl⟩

theorem Unbound.loseWriter (h : q.Unbound) (link : Nat) : (q.loseWriter link).Unbound :=
  ⟨by rw [Requester.loseWriter, h.outlet]; rfl, h.pending, h.subscriptions, h.shut⟩

theorem Unbound.send (h : q.Unbound) (req : Request) (handler : Handler) :
    q.send req handler = (.error .notConnected, [], q) := by
  rw [Requester.send, h.outlet]

/-- All that is asked for is refused. -/
theorem Unbound.perform (h : q.Unbound) {call : Call} (hcall : call.uses = true) :
    (q.perform call).after = q := by
  have hrid : ∀ rid, q.pending.get? rid = none := fun rid => by
    rw [PendingTable.get?, h.pending]
    rfl
  have hsid : ∀ sid, q.subscriptions.entries.get? sid = none := fun sid => by
    rw [h.subscriptions]
    rfl
  cases call with
  | list | invoke | set | remove =>
    exact congrArg (fun x => x.2.2) (h.send _ _)
  | close rid => simp only [Requester.perform, Requester.close, PendingTable.remove, hrid]
  | subscribe path qos handler =>
    simp only [Requester.perform, Requester.subscribe, h.shut, Bool.false_eq_true, if_false]
  | unsubscribe sid =>
    simp only [Requester.perform, Requester.unsubscribe, SubscriptionTable.remove, hsid]
  | connect | loseWriter | disconnect | flush | respond => cases hcall

theorem Unbound.sendBatch (h : q.Unbound) (isEmpty : Bool) (req : Request) :
    q.sendBatch isEmpty req = ([], q) := by
  unfold Requester.sendBatch
  split
  · rfl
  · rw [h.send]

theorem Unbound.flush (h : q.Unbound) : q.flush.2.Unbound := by
  have hmarked : ∀ sids : List Nat, sids.foldl
      (fun es sid => es.modify sid fun e => { e with sent := true })
        ({} : Table Nat Subscription) = {} := by
    intro sids
    induction sids with
    | nil => rfl
    | cons sid sids ih => exact ih
  have htaken : ({ q with subscriptions := q.subscriptions.takeBatch.2 } : Requester).Unbound := by
    refine ⟨h.outlet, h.pending, ?_, h.shut⟩
    simp only [SubscriptionTable.takeBatch, h.subscriptions]
    exact hmarked _
  simp only [Requester.flush, htaken.sendBatch]
  exact htaken

end Requester

/-! ## The responder -/

/-- No connection, no open stream and no subscription. -/
structure Responder.Unbound (r : Responder) : Prop where
  outlet : r.outlet = none
  inbound : r.inbound = {}
  registryOutlet : r.registry.outlet = none
  entries : r.registry.entries = {}

namespace Responder
variable {σ : Type} [ValueTree σ] {r : Responder}

theorem Unbound.start : ({} : Responder).Unbound := ⟨rfl, rfl, rfl, rfl⟩

theorem disconnect_unbound (r : Responder) (t : σ) : (r.disconnect t).1.Unbound :=
  ⟨rfl, rfl, rfl, rfl⟩

theorem Unbound.loseWriter (h : r.Unbound) (link : Nat) : (r.loseWriter link).Unbound := by
  refine ⟨?_, h.inbound, ?_, h.entries⟩
  · rw [Responder.loseWriter, h.outlet]
    rfl
  · rw [Responder.loseWriter, Registry.loseWriter, h.registryOutlet]
    rfl

theorem Unbound.onChanges (h : r.Unbound) (ns : List (Notice Binding)) :
    r.onChanges ns = ([], r) := by
  rw [Responder.onChanges, Feed.onChanges_of_empty h.entries]
  rfl

theorem Unbound.current? (h : r.Unbound) (s : StreamKey) : r.current? s = none := by
  rw [Responder.current?, h.inbound]
  rfl

theorem Unbound.give (h : r.Unbound) (t : σ) (a : Option Reply) : r.give t a = ([], r, t) := by
  cases a with
  | none => rfl
  | some a =>
    simp only [Responder.give, Responder.finish, Responder.sendOpen, h.current?,
      Option.isSome_none, Bool.false_eq_true, if_false, ite_self]

end Responder

namespace Registry
variable {σ : Type} [ValueTree σ] {r : Registry}

theorem bindAll_of_unbound (h : r.outlet = none) (now : Timestamp) (t : σ) :
    ∀ ps : List SubscribePath, r.bindAll now t ps = ([], r, t)
  | [] => rfl
  | p :: ps => by
    have hone : r.bind now t p = ([], r, t) := by
      simp only [Registry.bind, h, Option.isNone_none, Bool.or_true, if_true]
    simp only [Registry.bindAll, hone, bindAll_of_unbound h now t ps, List.append_nil]

theorem release_of_empty (h : r.entries = {}) (t : σ) (sids : List Nat) :
    (r.release t sids).1.entries = {} := by
  have hall : ∀ (sids : List Nat) (r : Registry), r.entries = {} →
      (sids.foldl (fun x sid => releaseOne x.1 x.2 sid) (r, t)) = (r, t) := by
    intro sids
    induction sids with
    | nil => exact fun _ _ => rfl
    | cons sid sids ih =>
      intro r h
      have hone : releaseOne r t sid = (r, t) := by
        rw [releaseOne, h]
        rfl
      rw [List.foldl_cons, hone, ih r h]
  have hrelease : r.release t sids =
      ({ r with queued := r.queued.filter fun u => !sids.contains u.sid }, t) := hall sids _ h
  rw [hrelease]
  exact h

theorem applyAll_of_unbound (now : Timestamp) (ops : List RegistryOp) {r : Registry} {t : σ}
    (houtlet : r.outlet = none) (hentries : r.entries = {}) :
    (r.applyAll now t ops).2.1.entries = {} := by
  induction ops generalizing r t with
  | nil => exact hentries
  | cons op ops ih =>
    cases op with
    | subscribe ps =>
      have hbind : r.apply now t (.subscribe ps) = ([], r, t) := bindAll_of_unbound houtlet now t ps
      simp only [applyAll, hbind]
      exact ih houtlet hentries
    | unsubscribe sids =>
      exact ih ((release_outlet r t sids).trans houtlet) (release_of_empty hentries t sids)

end Registry

namespace Responder
variable {σ : Type} [ValueTree σ] {r : Responder}

/-- Tasks that are left over open nothing. -/
theorem Unbound.run (h : r.Unbound) (now : Timestamp) (t : σ) (task : ResponderTask) :
    (r.run now t task).2.1.Unbound := by
  by_cases hregistry : ∃ x, task = .registry x
  · obtain ⟨x, rfl⟩ := hregistry
    cases x with
    | flush => exact ⟨h.outlet, h.inbound, h.registryOutlet, h.entries⟩
    | drain =>
      exact ⟨h.outlet, h.inbound, (r.registry.run_outlet now t .drain).trans h.registryOutlet,
        Registry.applyAll_of_unbound now r.registry.ops h.registryOutlet h.entries⟩
  · rw [run_call now r t fun x he => hregistry ⟨x, he⟩]
    simp only [conclude, h.onChanges, h.give]
    exact h

end Responder

/-! ## Peers -/

structure Peer.Unbound {σ : Type} (p : Peer σ) : Prop where
  requester : ∀ q, p.requester = some q → q.Unbound
  responder : ∀ r, p.responder = some r → r.Unbound
  outlet : p.outlet = none

/-- What a peer does between connections, or on one. -/
structure Peer.Calm {σ : Type} (p p' : Peer σ) : Prop where
  timers : p.worker.Fades p'.worker
  unbound : p.Unbound → p'.Unbound
  bound : ∀ link, p.BoundTo link → p'.BoundTo link

namespace Peer
variable {σ : Type} {p p' p'' : Peer σ}

theorem Calm.refl (p : Peer σ) : p.Calm p := ⟨.refl _, id, fun _ => id⟩

theorem Calm.trans (h : p.Calm p') (h' : p'.Calm p'') : p.Calm p'' :=
  ⟨h.timers.trans h'.timers, fun hp => h'.unbound (h.unbound hp),
    fun link hp => h'.bound link (h.bound link hp)⟩

theorem Calm.of_worker {worker : Worker PeerTask} (h : p.worker.Fades worker) :
    p.Calm { p with worker } :=
  ⟨h, fun hp => ⟨hp.requester, hp.responder, hp.outlet⟩, fun _ hp => ⟨hp.requester, hp.responder⟩⟩

theorem BoundTo.afterAsking {q q' : Requester} {link : Nat} (hp : p.BoundTo link)
    (hq : p.requester = some q) (es : Requester.Effects) (h : q.BoundTo link → q'.BoundTo link) :
    (p.afterAsking es q').2.BoundTo link :=
  ⟨fun _ hq' => Option.some.inj hq' ▸ h (hp.requester q hq), hp.responder⟩

theorem BoundTo.afterAnswering {r r' : Responder} {link : Nat} (hp : p.BoundTo link)
    (hr : p.responder = some r) (es : Responder.Effects) (h : r.BoundTo link → r'.BoundTo link)
    (t : σ) : ({ p with tree := t }.afterAnswering es r').2.BoundTo link :=
  ⟨hp.requester, fun _ hr' => Option.some.inj hr' ▸ h (hp.responder r hr)⟩

theorem afterAsking_calm {q q' : Requester} (hq : p.requester = some q)
    (es : Requester.Effects) (h : q.Unbound → q'.Unbound)
    (hbound : ∀ link, q.BoundTo link → q'.BoundTo link) : p.Calm (p.afterAsking es q').2 :=
  ⟨p.worker.submit_fades _,
    fun hp => ⟨fun _ hq' => Option.some.inj hq' ▸ h (hp.requester q hq), hp.responder, hp.outlet⟩,
    fun link hp => hp.afterAsking hq es (hbound link)⟩

theorem afterAnswering_calm {r r' : Responder} (hr : p.responder = some r)
    (es : Responder.Effects) (h : r.Unbound → r'.Unbound)
    (hbound : ∀ link, r.BoundTo link → r'.BoundTo link) (t : σ) :
    p.Calm ({ p with tree := t }.afterAnswering es r').2 :=
  ⟨p.worker.submit_fades _,
    fun hp => ⟨hp.requester, fun _ hr' => Option.some.inj hr' ▸ h (hp.responder r hr), hp.outlet⟩,
    fun link hp => hp.afterAnswering hr es (hbound link) t⟩

theorem loseWriter_calm (p : Peer σ) (link : Nat) : p.Calm (p.loseWriter link) := by
  refine ⟨.refl _, fun hp => ⟨fun q hq => ?_, fun r hr => ?_, ?_⟩,
    fun _ hp => ⟨fun q hq => ?_, fun r hr => ?_⟩⟩
  · obtain ⟨q0, hq0, rfl⟩ := Option.map_eq_some_iff.mp hq
    exact (hp.requester q0 hq0).loseWriter link
  · obtain ⟨r0, hr0, rfl⟩ := Option.map_eq_some_iff.mp hr
    exact (hp.responder r0 hr0).loseWriter link
  · rw [Peer.loseWriter, hp.outlet]
    rfl
  · obtain ⟨q0, hq0, rfl⟩ := Option.map_eq_some_iff.mp hq
    exact (hp.requester q0 hq0).loseWriter link
  · obtain ⟨r0, hr0, rfl⟩ := Option.map_eq_some_iff.mp hr
    exact (hp.responder r0 hr0).loseWriter link

theorem change_calm (p : Peer σ) (act : σ → List (Notice Binding) × σ) :
    p.Calm (p.change act).2 := by
  unfold Peer.change
  dsimp only
  cases hr : p.responder with
  | none =>
    exact ⟨.refl _,
      fun hp => ⟨hp.requester, fun r hr' => hp.responder r (hr.trans hr'), hp.outlet⟩,
      fun _ hp => ⟨hp.requester, fun r hr' => hp.responder r (hr.trans hr')⟩⟩
  | some r =>
    refine afterAnswering_calm hr _ (fun h => ?_) (fun _ h => h.onChanges _) _
    rw [h.onChanges]
    exact h

theorem ask_calm {call : Requester.Call} (hcall : call.uses = true) {x : Unit × Effects × Peer σ}
    (h : p.ask (fun q => ((), (q.perform call).effects, (q.perform call).after)) = some x) :
    p.Calm x.2.2 := by
  obtain ⟨q, hq, rfl⟩ := Option.map_eq_some_iff.mp h
  refine afterAsking_calm hq _ (fun hunbound => ?_) fun _ h => h.of_outlet (q.perform_outlet hcall)
  rw [hunbound.perform hcall]
  exact hunbound

/-- What arrives adds no timer. -/
theorem dispatch_fades (now : Timestamp) (p : Peer σ) (i : Inbound) :
    p.worker.Fades (p.dispatch now i).2.worker := by
  cases i with
  | rejected rid e =>
    simp only [dispatch, dispatchRejected]
    cases p.responder with
    | none => exact .refl _
    | some r => exact p.worker.submit_fades _
  | message m =>
    cases m with
    | ping => exact .refl _
    | request req =>
      simp only [dispatch, dispatchRequest]
      cases p.responder with
      | none => exact .refl _
      | some r => exact p.worker.submit_fades _
    | response resp =>
      simp only [dispatch, dispatchResponse]
      cases p.requester with
      | none => exact .refl _
      | some q => exact p.worker.submit_fades _

theorem BoundTo.dispatch {link : Nat} (h : p.BoundTo link) (now : Timestamp) (i : Inbound) :
    (p.dispatch now i).2.BoundTo link := by
  cases i with
  | rejected rid e =>
    simp only [Peer.dispatch, dispatchRejected]
    cases hr : p.responder with
    | none => exact h
    | some r => exact h.afterAnswering hr _ id p.tree
  | message m =>
    cases m with
    | ping => exact h
    | request req =>
      simp only [Peer.dispatch, dispatchRequest]
      cases hr : p.responder with
      | none => exact h
      | some r => exact h.afterAnswering hr _ (·.handle req) p.tree
    | response resp =>
      simp only [Peer.dispatch, dispatchResponse]
      cases hq : p.requester with
      | none => exact h
      | some q => exact h.afterAsking hq _ (·.of_outlet (q.handleResponse_outlet now resp))

variable [ValueTree σ]

theorem runTask_calm (now : Timestamp) (p : Peer σ) (task : PeerTask) :
    p.Calm (p.runTask now task).2 := by
  cases task with
  | flush =>
    simp only [runTask]
    cases hq : p.requester with
    | none => exact .refl p
    | some q => exact afterAsking_calm hq _ (·.flush) fun _ h => h.of_outlet q.flush_turn.outlet
  | respond t =>
    simp only [runTask]
    cases hr : p.responder with
    | none => exact .refl p
    | some r =>
      exact afterAnswering_calm hr _ (·.run now p.tree t) (fun _ h => h.run now p.tree t) _
  | ping link => exact .refl p

theorem runWork_calm (now : Timestamp) {work : Work PeerTask} {worker : Worker PeerTask}
    (h : p.worker.Fades worker) : p.Calm (p.runWork now work worker).2 := by
  have hstart := Calm.of_worker (h.trans (worker.start_fades work))
  unfold runWork
  dsimp only
  cases (worker.start work).1 with
  | none => exact hstart.trans (.of_worker (Worker.finish_fades _ _))
  | some t =>
    exact hstart.trans ((runTask_calm now _ t).trans (.of_worker (Worker.finish_fades _ _)))

theorem workAt?_calm {now : Timestamp} {place : Nat} {x : Effects × Peer σ}
    (h : p.workAt? now place = some x) : p.Calm x.2 := by
  obtain ⟨y, hy, rfl⟩ := Option.map_eq_some_iff.mp h
  obtain ⟨work, -, rfl⟩ := Option.map_eq_some_iff.mp hy
  exact runWork_calm now (.of_queue fun t ht => List.mem_of_mem_eraseIdx ht)

theorem disconnect_unbound (p : Peer σ) :
    p.disconnect.2.Unbound ∧ p.worker.Fades p.disconnect.2.worker := by
  have hasked : (∀ q, p.disconnectRequester.2.requester = some q → q.Unbound) ∧
      p.worker.Fades p.disconnectRequester.2.worker := by
    unfold disconnectRequester
    cases hq : p.requester with
    | none => exact ⟨fun q hq' => absurd (hq.symm.trans hq') nofun, .refl _⟩
    | some q =>
      exact ⟨fun q' hq' => Option.some.inj hq' ▸ q.disconnect_unbound, p.worker.submit_fades _⟩
  have hanswered : ∀ p : Peer σ, (∀ r, p.disconnectResponder.responder = some r → r.Unbound) ∧
      p.disconnectResponder.requester = p.requester ∧
      p.disconnectResponder.worker = p.worker := by
    intro p
    unfold disconnectResponder
    cases hr : p.responder with
    | none => exact ⟨fun r hr' => absurd (hr.symm.trans hr') nofun, rfl, rfl⟩
    | some r => exact ⟨fun r' hr' => Option.some.inj hr' ▸ r.disconnect_unbound p.tree, rfl, rfl⟩
  obtain ⟨hresponder, hrequester, hworker⟩ := hanswered p.disconnectRequester.2
  refine ⟨⟨fun q hq => hasked.1 q (hrequester.symm.trans hq), hresponder, rfl⟩, ?_⟩
  show p.worker.Fades p.disconnectRequester.2.disconnectResponder.worker
  rw [hworker]
  exact hasked.2

end Peer

/-! ## Endpoints -/

structure Endpoint.Calm {σ : Type} (e e' : Endpoint σ) : Prop where
  session : e'.session = none ↔ e.session = none
  links : e'.links = e.links
  timers : e.peer.worker.Fades e'.peer.worker
  unbound : e.session = none → e.peer.Unbound → e'.peer.Unbound
  bound : ∀ link, e.peer.BoundTo link → e'.peer.BoundTo link

namespace Endpoint
variable {σ : Type} {e e' e'' : Endpoint σ}

theorem Calm.refl (e : Endpoint σ) : e.Calm e := ⟨.rfl, rfl, .refl _, fun _ => id, fun _ => id⟩

theorem Calm.trans (h : e.Calm e') (h' : e'.Calm e'') : e.Calm e'' where
  session := h'.session.trans h.session
  links := h'.links.trans h.links
  timers := h.timers.trans h'.timers
  unbound := fun hnone hunbound => h'.unbound (h.session.mpr hnone) (h.unbound hnone hunbound)
  bound := fun link hbound => h'.bound link (h.bound link hbound)

theorem Calm.of_session {f : Session → Session} : e.Calm { e with session := e.session.map f } :=
  ⟨Option.map_eq_none_iff, rfl, .refl _, fun _ => id, fun _ => id⟩

theorem after_calm {es : Peer.Effects} {p : Peer σ} (h : e.peer.Calm p) :
    e.Calm (e.after es p).2 :=
  ⟨Option.map_eq_none_iff, rfl, h.timers, fun _ => h.unbound, h.bound⟩

theorem write_calm (e : Endpoint σ) : e.Calm e.write.2 := by
  unfold write
  cases hs : e.session with
  | none => exact .refl e
  | some s =>
    dsimp only
    have hpeer : e.peer.Calm
        (if s.write.2.writes then e.peer else e.peer.loseWriter s.write.2.link) := by
      split
      · exact .refl _
      · exact e.peer.loseWriter_calm _
    exact ⟨by rw [hs]; exact iff_of_false nofun nofun, rfl, hpeer.timers,
      fun hnone => absurd (hs.symm.trans hnone) nofun, hpeer.bound⟩

theorem act_calm {es : Peer.Effects} {p : Peer σ} (h : e.peer.Calm p) : e.Calm (e.act es p).2 :=
  (after_calm h).trans (write_calm _)

theorem hangUp_calm (e : Endpoint σ) : e.Calm e.hangUp := .of_session

theorem advance_calm (e : Endpoint σ) (ms : Nat) : e.Calm (e.advance ms) :=
  ⟨Option.map_eq_none_iff, rfl, e.peer.worker.advance_fades ms,
    fun _ h => ⟨h.requester, h.responder, h.outlet⟩, fun _ h => ⟨h.requester, h.responder⟩⟩

theorem change_calm (e : Endpoint σ) (act : σ → List (Notice Binding) × σ) :
    e.Calm (e.change act).2 := act_calm (e.peer.change_calm act)

/-! ### Reading -/

theorem Calm.of_bound {s s' : Session} (hs : e.session = some s) :
    e.Calm { e with session := some s' } :=
  ⟨by rw [hs]; exact iff_of_false nofun nofun, rfl, .refl _, fun _ => id, fun _ => id⟩

theorem readFor_calm (now : Timestamp) (fuel : Nat) (e : Endpoint σ) :
    e.Calm (e.readFor now fuel).2 := by
  induction fuel generalizing e with
  | zero => exact .refl e
  | succ fuel ih =>
    unfold readFor
    cases hs : e.session with
    | none => exact .refl e
    | some s =>
      dsimp only
      split
      · exact .of_bound hs
      · split
        · exact .of_bound hs
        · exact (Calm.of_bound hs).trans (ih _)
      · rename_i i s' _
        have hafter : e.Calm ({ e with session := some s' }.after (e.peer.dispatch now i).1
            (e.peer.dispatch now i).2).2 :=
          ⟨by rw [hs]; exact iff_of_false nofun nofun, rfl, e.peer.dispatch_fades now i,
            fun hnone => absurd (hs.symm.trans hnone) nofun, fun _ h => h.dispatch now i⟩
        exact hafter.trans (ih _)

theorem read_calm (now : Timestamp) (e : Endpoint σ) (chunk : Bytes) :
    e.Calm (e.read now chunk).2 := by
  unfold read
  cases hs : e.session with
  | none => exact .refl e
  | some s =>
    dsimp only
    split
    · exact (Calm.of_bound hs).trans (readFor_calm now _ _)
    · exact .refl e

theorem receive_calm (now : Timestamp) (e : Endpoint σ) (bs : Bytes) :
    e.Calm (e.receive now bs).2 := by
  have hall : ∀ (cs : List Bytes) (e : Endpoint σ), e.Calm (e.readAll now cs).2 := by
    intro cs
    induction cs with
    | nil => exact .refl
    | cons c cs ih => exact fun e => (e.read_calm now c).trans (ih _)
  exact (hall _ e).trans (write_calm _)

/-! ### Calls -/

/-- Reader or writer of the session ends. -/
def report (e : Endpoint σ) (why : DisconnectReason) : Endpoint σ :=
  { e with session := e.session.map fun s => { s with reasons := s.reasons ++ [why] } }

/-- Somebody asks something of the requester. -/
def use? (call : Requester.Call) (e : Endpoint σ) : Option (Unit × Effects × Endpoint σ) :=
  e.ask fun q => ((), (q.perform call).effects, (q.perform call).after)

theorem use?_calm {call : Requester.Call} (hcall : call.uses = true)
    {x : Unit × Effects × Endpoint σ} (h : e.use? call = some x) : e.Calm x.2.2 := by
  obtain ⟨y, hy, rfl⟩ := Option.map_eq_some_iff.mp h
  exact act_calm (Peer.ask_calm hcall hy)

/-! ### Work and sessions -/

variable [ValueTree σ]

/-- A worker runs the task at a place. -/
def workAt? (now : Timestamp) (place : Nat) (e : Endpoint σ) : Option (Effects × Endpoint σ) :=
  (e.peer.workAt? now place).map fun x => e.act x.1 x.2

theorem workAt?_calm {now : Timestamp} {place : Nat} {x : Effects × Endpoint σ}
    (h : e.workAt? now place = some x) : e.Calm x.2 := by
  obtain ⟨y, hy, rfl⟩ := Option.map_eq_some_iff.mp h
  exact act_calm (Peer.workAt?_calm hy)

theorem disconnect_unbound (e : Endpoint σ) :
    e.disconnect.2.session = none ∧ e.disconnect.2.links = e.links ∧
      e.peer.worker.Fades e.disconnect.2.peer.worker ∧ e.disconnect.2.peer.Unbound := by
  obtain ⟨hunbound, htimers⟩ := e.peer.disconnect_unbound
  exact ⟨rfl, rfl, htimers, hunbound⟩

end Endpoint
end PeerLink
