import PeerLink.Proofs.DialogueSteps
import PeerLink.Proofs.RequestRuns

/-! # Sides of a connection

* `Requester.BoundTo`, `Responder.BoundTo`, `Peer.BoundTo`: a side is bound to a connection, though
  its writer may be gone.
* `Requester.Call.uses`: what those who have a requester may ask of it.
* A side remains bound, whatever is asked, answered and handed on, until it is disconnected.
-/

namespace PeerLink
set_option autoImplicit false

/-! ## The requester -/

def Requester.BoundTo (q : Requester) (link : Nat) : Prop := q.outlet.map (·.link) = some link

namespace Requester
variable {q q' : Requester} {link : Nat}

/-- Calls that are not the connection's own. -/
def Call.uses : Call → Bool
  | .list .. | .invoke .. | .set .. | .remove .. | .close _ | .subscribe .. | .unsubscribe _ => true
  | .connect _ | .loseWriter _ | .disconnect | .flush | .respond .. => false

theorem BoundTo.of_outlet (h : q.BoundTo link) (houtlet : q'.outlet = q.outlet) :
    q'.BoundTo link := by
  rwa [BoundTo, houtlet]

theorem BoundTo.loseWriter (h : q.BoundTo link) (lost : Nat) : (q.loseWriter lost).BoundTo link :=
  (Outlet.lose_link q.outlet lost).trans h

theorem perform_outlet (q : Requester) {call : Call} (hcall : call.uses = true) :
    (q.perform call).after.outlet = q.outlet := by
  cases call with
  | list | invoke | set | remove =>
    refine (q.send_turn ?_ _).outlet
    exact nofun
  | close rid => exact (q.close_turn rid).outlet
  | subscribe path qos handler => exact (q.subscribe_turn path qos handler).outlet
  | unsubscribe sid => exact (q.unsubscribe_turn sid).outlet
  | connect | loseWriter | disconnect | flush | respond => cases hcall

theorem handleResponse_outlet (now : Timestamp) (q : Requester) (resp : Response) :
    (q.handleResponse now resp).2.outlet = q.outlet := by
  unfold Requester.handleResponse
  split
  · exact (handleUpdates_turn now _ q).outlet
  · split
    · split <;> rfl
    · dsimp only
      split <;> rfl

end Requester

/-! ## The responder -/

namespace Registry
variable {σ : Type} [ValueTree σ]

theorem refuse_outlet (r : Registry) (b : Binding) : (r.refuse b).outlet = r.outlet := by
  unfold refuse
  split <;> rfl

theorem attach_outlet (r : Registry) (t : σ) (b : Binding) (watch : Nat)
    (initial : Option ValueUpdate) : (r.attach t b watch initial).2.1.outlet = r.outlet := by
  unfold attach
  split
  · rfl
  · dsimp only
    split <;> rfl

theorem bind_outlet (now : Timestamp) (r : Registry) (t : σ) (p : SubscribePath) :
    (r.bind now t p).2.1.outlet = r.outlet := by
  unfold bind
  split
  · rfl
  · dsimp only
    split
    · exact (refuse_outlet _ _).trans (onChanges_schedules _ _).outlet
    · exact (attach_outlet _ _ _ _ _).trans (onChanges_schedules _ _).outlet

theorem bindAll_outlet (now : Timestamp) : ∀ (ps : List SubscribePath) (r : Registry) (t : σ),
    (r.bindAll now t ps).2.1.outlet = r.outlet
  | [], _, _ => rfl
  | _ :: ps, _, _ => (bindAll_outlet now ps _ _).trans (bind_outlet now _ _ _)

theorem release_outlet (r : Registry) (t : σ) (sids : List Nat) :
    (r.release t sids).1.outlet = r.outlet := by
  have hall : ∀ (sids : List Nat) (x : Registry × σ),
      (sids.foldl (fun x sid => releaseOne x.1 x.2 sid) x).1.outlet = x.1.outlet := by
    intro sids
    induction sids with
    | nil => exact fun _ => rfl
    | cons sid sids ih =>
      intro x
      have hone : (releaseOne x.1 x.2 sid).1.outlet = x.1.outlet := by
        unfold releaseOne
        split <;> rfl
      exact (ih _).trans hone
  exact hall sids (_, t)

theorem applyAll_outlet (now : Timestamp) : ∀ (ops : List RegistryOp) (r : Registry) (t : σ),
    (r.applyAll now t ops).2.1.outlet = r.outlet
  | [], _, _ => rfl
  | .subscribe ps :: ops, _, _ => (applyAll_outlet now ops _ _).trans (bindAll_outlet now ps _ _)
  | .unsubscribe sids :: ops, _, _ =>
    (applyAll_outlet now ops _ _).trans (release_outlet _ _ sids)

theorem run_outlet (now : Timestamp) (r : Registry) (t : σ) (task : RegistryTask) :
    (r.run now t task).2.1.outlet = r.outlet := by
  cases task with
  | flush => rfl
  | drain => exact applyAll_outlet now r.ops { r with ops := [] } t

end Registry

structure Responder.BoundTo (r : Responder) (link : Nat) : Prop where
  outlet : r.outlet.map (·.link) = some link
  registry : r.registry.outlet.map (·.link) = some link

namespace Responder
variable {r r' : Responder} {link : Nat}

theorem BoundTo.of_outlets (h : r.BoundTo link) (houtlet : r'.outlet = r.outlet)
    (hregistry : r'.registry.outlet = r.registry.outlet) : r'.BoundTo link :=
  ⟨houtlet ▸ h.outlet, hregistry ▸ h.registry⟩

theorem BoundTo.loseWriter (h : r.BoundTo link) (lost : Nat) : (r.loseWriter lost).BoundTo link :=
  ⟨(Outlet.lose_link r.outlet lost).trans h.outlet,
    (Outlet.lose_link r.registry.outlet lost).trans h.registry⟩

theorem BoundTo.handle (h : r.BoundTo link) (req : Request) : (r.handle req).2.BoundTo link := by
  have hclose : (r.closeInbound req.rid).2.BoundTo link := by
    unfold closeInbound
    split
    · exact h
    · exact h.of_outlets rfl rfl
  have hopen : (r.openStream req).2.BoundTo link := by
    unfold openStream
    split
    · exact h
    · exact h.of_outlets rfl rfl
  unfold Responder.handle
  cases req.method with
  | close => exact hclose
  | list | invoke | set => exact hopen
  | subscribe | unsubscribe => exact h.of_outlets rfl rfl
  | remove => exact h

theorem BoundTo.onChanges (h : r.BoundTo link) (ns : List (Notice Binding)) :
    (r.onChanges ns).2.BoundTo link :=
  h.of_outlets rfl (Registry.onChanges_schedules ns r.registry).outlet

variable {σ : Type} [ValueTree σ]

theorem Given.boundTo {t t' : σ} {a : Reply} {es : Effects} (hgiven : Given r t a es r' t')
    (h : r.BoundTo link) : r'.BoundTo link := by
  cases hgiven with
  | stale | still => exact h
  | last => exact h.of_outlets rfl rfl

theorem BoundTo.give (h : r.BoundTo link) (t : σ) (a : Option Reply) :
    (r.give t a).2.1.BoundTo link := by
  cases a with
  | none => exact h
  | some a => exact (r.give_given t a).boundTo h

theorem BoundTo.run (h : r.BoundTo link) (now : Timestamp) (t : σ) (task : ResponderTask) :
    (r.run now t task).2.1.BoundTo link := by
  by_cases hregistry : ∃ x, task = .registry x
  · obtain ⟨x, rfl⟩ := hregistry
    exact h.of_outlets rfl (r.registry.run_outlet now t x)
  · rw [run_call now r t fun x he => hregistry ⟨x, he⟩]
    exact (h.onChanges _).give _ _

end Responder

/-! ## Peers -/

structure Peer.BoundTo {σ : Type} (p : Peer σ) (link : Nat) : Prop where
  requester : ∀ q, p.requester = some q → q.BoundTo link
  responder : ∀ r, p.responder = some r → r.BoundTo link

theorem Peer.connect_boundTo {σ : Type} (p : Peer σ) (link : Nat) :
    (p.connect link).BoundTo link := by
  refine ⟨fun q hq => ?_, fun r hr => ?_⟩
  · obtain ⟨_, -, rfl⟩ := Option.map_eq_some_iff.mp hq
    rfl
  · obtain ⟨_, -, rfl⟩ := Option.map_eq_some_iff.mp hr
    exact ⟨rfl, rfl⟩

end PeerLink
