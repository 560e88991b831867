import PeerLink.Proofs.Replies

/-! # Trees that keep a record

* `Ledger`: a tree of any kind, and the streams that were reported to it as closed.
* `Ledger.run_eq`, `Ledger.disconnect_eq`: the record changes nothing that is asked of the tree.
* `Ledger.call_eq`, `Ledger.foldl_streamClosed`: what comes to stand in the record.
-/

namespace PeerLink
set_option autoImplicit false

open Json (Value)

/-- A tree, and the streams that were reported to it as closed, the oldest first. -/
structure Ledger (σ : Type) where
  tree : σ
  closed : List (String × Method) := []

variable {σ : Type} [ValueTree σ]

instance : ValueTree (Ledger σ) where
  listChildren t path := ValueTree.listChildren t.tree path
  readValue t path := ValueTree.readValue t.tree path
  writeValue now t path value permit :=
    let (outcome, notices, tree) := ValueTree.writeValue now t.tree path value permit
    (outcome, notices, { t with tree })
  invoke now t path params :=
    let (outcome, notices, tree) := ValueTree.invoke now t.tree path params
    (outcome, notices, { t with tree })
  watch now t path b :=
    let (watch, notices, tree) := ValueTree.watch now t.tree path b
    (watch, notices, { t with tree })
  unwatch t id := { t with tree := ValueTree.unwatch t.tree id }
  streamClosed t path method :=
    ⟨ValueTree.streamClosed t.tree path method, t.closed ++ [(path, method)]⟩

namespace Ledger

/-- The same outcome for a tree with a record. -/
def lift {α β : Type} (closed : List (String × Method)) (x : α × β × σ) : α × β × Ledger σ :=
  (x.1, x.2.1, ⟨x.2.2, closed⟩)

/-! ## Subscriptions -/

open Registry (unwatch releaseOne)

theorem unwatch_eq (t : Ledger σ) (e : RegistryEntry) :
    unwatch t e = ⟨unwatch t.tree e, t.closed⟩ := by
  unfold unwatch
  cases e.watch <;> rfl

theorem openEntry_eq (r : Registry) (t : Ledger σ) (p : SubscribePath) :
    r.openEntry t p = lift t.closed (r.openEntry t.tree p) := by
  simp only [Registry.openEntry, lift]
  cases r.entries.get? p.sid with
  | none => rfl
  | some e =>
    dsimp only
    rw [unwatch_eq]

theorem attach_eq (r : Registry) (t : Ledger σ) (b : Binding) (watch : Nat)
    (initial : Option ValueUpdate) :
    r.attach t b watch initial = lift t.closed (r.attach t.tree b watch initial) := by
  unfold Registry.attach
  cases r.current? b with
  | none => rfl
  | some e =>
    dsimp only
    split
    · rfl
    · rfl

theorem bind_eq (now : Timestamp) (r : Registry) (t : Ledger σ) (p : SubscribePath) :
    r.bind now t p = lift t.closed (r.bind now t.tree p) := by
  unfold Registry.bind
  split
  · rfl
  · rw [openEntry_eq]
    obtain ⟨b, r1, tree⟩ := r.openEntry t.tree p
    have hwatch : ValueTree.watch now (⟨tree, t.closed⟩ : Ledger σ) p.path b =
        lift t.closed (ValueTree.watch now tree p.path b) := rfl
    dsimp only [lift] at hwatch ⊢
    rw [hwatch]
    obtain ⟨watch, notices, tree'⟩ := ValueTree.watch now tree p.path b
    dsimp only
    cases watch with
    | error e => rfl
    | ok id =>
      dsimp only
      rw [attach_eq]
      rfl

theorem bindAll_eq (now : Timestamp) : ∀ (ps : List SubscribePath) (r : Registry) (t : Ledger σ),
    r.bindAll now t ps = lift t.closed (r.bindAll now t.tree ps)
  | [], _, _ => rfl
  | p :: ps, r, t => by
    simp only [Registry.bindAll]
    rw [bind_eq]
    simp only [lift]
    rw [bindAll_eq now ps]
    rfl

theorem foldl_releaseOne : ∀ (sids : List Nat) (r : Registry) (t : Ledger σ),
    sids.foldl (fun x sid => releaseOne x.1 x.2 sid) (r, t) =
      ((sids.foldl (fun x sid => releaseOne x.1 x.2 sid) (r, t.tree)).1,
        ⟨(sids.foldl (fun x sid => releaseOne x.1 x.2 sid) (r, t.tree)).2, t.closed⟩)
  | [], _, _ => rfl
  | sid :: sids, r, t => by
    have hone : releaseOne r t sid =
        ((releaseOne r t.tree sid).1, ⟨(releaseOne r t.tree sid).2, t.closed⟩) := by
      unfold releaseOne
      cases r.entries.get? sid with
      | none => rfl
      | some e =>
        dsimp only
        rw [unwatch_eq]
    rw [List.foldl_cons, List.foldl_cons, hone]
    exact foldl_releaseOne sids _ _

theorem applyAll_eq (now : Timestamp) : ∀ (ops : List RegistryOp) (r : Registry) (t : Ledger σ),
    r.applyAll now t ops = lift t.closed (r.applyAll now t.tree ops)
  | [], _, _ => rfl
  | op :: ops, r, t => by
    have hone : r.apply now t op = lift t.closed (r.apply now t.tree op) := by
      cases op with
      | subscribe ps => exact bindAll_eq now ps r t
      | unsubscribe sids =>
        simp only [Registry.apply, Registry.release]
        rw [foldl_releaseOne]
        rfl
    simp only [Registry.applyAll]
    rw [hone]
    simp only [lift]
    rw [applyAll_eq now ops]
    rfl

theorem run_registry (now : Timestamp) (r : Registry) (t : Ledger σ) (task : RegistryTask) :
    r.run now t task = lift t.closed (r.run now t.tree task) := by
  cases task with
  | flush => rfl
  | drain =>
    simp only [Registry.run, Registry.drain]
    rw [applyAll_eq]
    rfl

theorem foldl_unwatch : ∀ (es : List RegistryEntry) (t : Ledger σ),
    es.foldl unwatch t = ⟨es.foldl unwatch t.tree, t.closed⟩
  | [], _ => rfl
  | e :: es, t => by
    rw [List.foldl_cons, List.foldl_cons, unwatch_eq]
    exact foldl_unwatch es _

/-! ## Streams -/

end Ledger

/-- What a task reports to the tree when it runs. -/
def ResponderTask.report? : ResponderTask → Option (String × Method)
  | .reportClosed path method => some (path, method)
  | _ => none

/-- What is reported of a stream when it is over. -/
def InboundContext.report (c : InboundContext) : String × Method := (c.path, c.method)

namespace Ledger

theorem call_eq (now : Timestamp) (t : Ledger σ) (task : ResponderTask) :
    task.call now t = ((task.call now t.tree).1, (task.call now t.tree).2.1,
      ⟨(task.call now t.tree).2.2, t.closed ++ task.report?.toList⟩) := by
  have hnone : t.closed ++ [] = t.closed := List.append_nil _
  cases task with
  | reportClosed path method => rfl
  | set s path value permit =>
    simp only [ResponderTask.report?, Option.toList_none, hnone]
    cases value <;> rfl
  | list | invoke | registry =>
    simp only [ResponderTask.report?, Option.toList_none, hnone]
    rfl

theorem give_eq (r : Responder) (t : Ledger σ) (a : Option Reply) :
    (r.give t a).1 = (r.give t.tree a).1 ∧ (r.give t a).2.1 = (r.give t.tree a).2.1 ∧
      (r.give t a).2.2.tree = (r.give t.tree a).2.2 := by
  cases a with
  | none => exact ⟨rfl, rfl, rfl⟩
  | some a =>
    simp only [Responder.give, Responder.finish]
    split
    · cases r.current? a.stream with
      | none => exact ⟨rfl, rfl, rfl⟩
      | some c => exact ⟨rfl, rfl, rfl⟩
    · exact ⟨rfl, rfl, rfl⟩

/-- A responder that serves a tree with a record does what it does for the tree alone. -/
theorem run_eq (now : Timestamp) (r : Responder) (t : Ledger σ) (task : ResponderTask) :
    (r.run now t task).1 = (r.run now t.tree task).1 ∧
      (r.run now t task).2.1 = (r.run now t.tree task).2.1 ∧
      (r.run now t task).2.2.tree = (r.run now t.tree task).2.2 := by
  by_cases hregistry : ∃ x, task = .registry x
  · obtain ⟨x, rfl⟩ := hregistry
    simp only [Responder.run]
    rw [run_registry]
    exact ⟨rfl, rfl, rfl⟩
  · have htask : ∀ x, task ≠ .registry x := fun x he => hregistry ⟨x, he⟩
    rw [Responder.run_call now r t htask, Responder.run_call now r t.tree htask, call_eq]
    obtain ⟨answer, notices, tree⟩ := task.call now t.tree
    obtain ⟨heffects, hresponder, htree⟩ :=
      give_eq (r.onChanges notices).2 ⟨tree, t.closed ++ task.report?.toList⟩ answer
    exact ⟨congrArg (_ ++ ·) heffects, hresponder, htree⟩

theorem foldl_streamClosed : ∀ (cs : List InboundContext) (t : Ledger σ),
    cs.foldl (fun t c => ValueTree.streamClosed t c.path c.method) t =
      ⟨cs.foldl (fun t c => ValueTree.streamClosed t c.path c.method) t.tree,
        t.closed ++ cs.map (·.report)⟩
  | [], t => by
    rw [List.map_nil, List.append_nil]
    rfl
  | c :: cs, t => by
    rw [List.foldl_cons, List.foldl_cons, foldl_streamClosed cs, List.map_cons]
    have hone : (ValueTree.streamClosed t c.path c.method).closed = t.closed ++ [c.report] := rfl
    rw [hone, List.append_assoc]
    rfl

theorem disconnect_eq (r : Responder) (t : Ledger σ) :
    r.disconnect t = ((r.disconnect t.tree).1,
      ⟨(r.disconnect t.tree).2, t.closed ++ r.inbound.values.map (·.report)⟩) := by
  simp only [Responder.disconnect, Registry.closeAll]
  rw [foldl_streamClosed, foldl_unwatch]

end Ledger
end PeerLink
