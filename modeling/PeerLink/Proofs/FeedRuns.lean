import PeerLink.Proofs.FeedSteps

/-! # Runs of a feed

* `Feed.Kept.deliverUp`, `Feed.Kept.deliverDown`: messages arrive.
* `Feed.Kept.cut`, `Feed.Kept.connect`: a connection ends, and another begins.
* `Feed.kept_of_reachable`: the invariant holds of every feed that moves lead to.
-/

namespace PeerLink
set_option autoImplicit false

namespace Feed
variable {c : Encoding} {f : Feed} {ops : List RegistryOp} {us : List SubscriptionUpdate}

/-! ## Messages arrive -/

/-- A batch arrives, waits behind the others, and is acknowledged. -/
theorem Kept.enqueue {rid : Nat} {op : RegistryOp} {up : List Message}
    (hup : f.up = .request (op.request rid) :: up) (hasks : Asks up ops)
    (h : f.Kept (op :: ops) us) :
    ({ f with up }.takeUp (.ok (.message (.request (op.request rid))))).Kept ops us := by
  have hopen : ∃ link, f.Open link := h.link.resolve_right fun hshut => by
    rw [hshut.up] at hup
    cases hup
  obtain ⟨link, hopen⟩ := hopen
  have hreply : f.responder.reply (.closed rid) = [.send ⟨link, .response (.closed rid)⟩] := by
    rw [Responder.reply, hopen.responder]
    rfl
  have hsilent : (Responder.ofRegistry (f.responder.registry.enqueue op).1).filterMap answered? =
      [] := by
    rw [Registry.enqueue]
    cases f.responder.registry.draining <;> rfl
  have hkinds : ∀ task ∈ (Responder.ofRegistry (f.responder.registry.enqueue op).1).filterMap
      Peer.answeredTask?, task = .respond (.registry .drain) := by
    rw [Registry.enqueue]
    cases f.responder.registry.draining with
    | true => exact fun task hm => absurd hm List.not_mem_nil
    | false => exact fun task hm => List.mem_singleton.mp hm
  rw [takeUp, RegistryOp.handle_request, Responder.applyBatch]
  dsimp only
  rw [hreply]
  simp only [afterAnswering, List.filterMap_append, hsilent, List.nil_append]
  have htasks : [ResponderEffect.send ⟨link, .response (.closed rid)⟩].filterMap
      Peer.answeredTask? = [] := rfl
  rw [htasks, List.append_nil]
  exact
    { asks := hasks
      brings := by
        have hbrings := h.brings.append (.closed rid .nil)
        rw [List.append_nil] at hbrings
        exact hbrings
      kinds := by
        intro task hm
        rcases List.mem_append.mp hm with hm | hm
        · exact h.kinds task hm
        · exact .inr ⟨_, hkinds task hm⟩
      flushing := fun hf => List.mem_append_left _ (h.flushing hf)
      roused := h.roused.enqueue op
      inbound := h.inbound
      link := .inl ⟨link, { hopen with }⟩
      coherent := by
        have hops : (f.responder.registry.enqueue op).2.ops ++ ops =
            f.responder.registry.ops ++ op :: ops := List.append_assoc _ [op] ops
        dsimp only
        rw [hops]
        exact h.coherent.same rfl rfl rfl }

theorem Kept.deliverUp (h : f.Kept ops us) (hlegible : f.Legible c) :
    ∃ ops', (f.after c.carry .deliverUp).Kept ops' us := by
  rw [after]
  have hasks := h.asks
  cases hup : f.up with
  | nil => exact ⟨ops, h⟩
  | cons m up =>
    have hreads : c.Reads m :=
      hlegible m (List.mem_append_left _ (hup ▸ List.mem_cons_self))
    rw [hup] at hasks
    cases hasks with
    | cons rid op hasks =>
      have hread : Message.read (.request (op.request rid)) = .request (op.request rid) :=
        congrArg Message.request (op.read_request rid)
      dsimp only
      rw [Encoding.carry_of_reads hreads Message.noConfusion, hread]
      exact ⟨_, h.enqueue hup hasks⟩

/-- A response has been taken that told handlers of something, and nothing else. -/
structure Heard (q : Requester) (es : Requester.Effects) (q' : Requester) : Prop where
  outlet : q'.outlet = q.outlet
  isOpen : q'.subscriptions.isOpen = q.subscriptions.isOpen
  flushScheduled : q'.subscriptions.flushScheduled = q.subscriptions.flushScheduled
  tasks : es.filterMap Peer.askedTask? = []
  silent : es.filterMap asked? = []

variable {q q' q'' : Requester} {es es' : Requester.Effects}

theorem Heard.refl (q : Requester) : Heard q [] q := ⟨rfl, rfl, rfl, rfl, rfl⟩

theorem Heard.trans (h : Heard q es q') (h' : Heard q' es' q'') : Heard q (es ++ es') q'' where
  outlet := h'.outlet.trans h.outlet
  isOpen := h'.isOpen.trans h.isOpen
  flushScheduled := h'.flushScheduled.trans h.flushScheduled
  tasks := by rw [List.filterMap_append, h.tasks, h'.tasks, List.append_nil]
  silent := by rw [List.filterMap_append, h.silent, h'.silent, List.append_nil]

theorem told_tasks (events : List HandlerEvent) :
    (events.map RequesterEffect.tell).filterMap Peer.askedTask? = [] := by
  simp [List.filterMap_map, Peer.askedTask?]

theorem told_silent (events : List HandlerEvent) :
    (events.map RequesterEffect.tell).filterMap asked? = [] := by
  simp [List.filterMap_map, asked?]

theorem handleResponse_closed (now : Timestamp) (q : Requester) (rid : Nat) :
    Heard q (q.handleResponse now (.closed rid)).1 (q.handleResponse now (.closed rid)).2 ∧
      (q.handleResponse now (.closed rid)).2.subscriptions = q.subscriptions := by
  have hclosing : (Response.closed rid).isClosing = true := rfl
  simp only [Requester.handleResponse, hclosing, if_true]
  split
  · exact ⟨.refl q, rfl⟩
  · split
    · exact ⟨.refl q, rfl⟩
    · exact ⟨⟨rfl, rfl, rfl, told_tasks _, told_silent _⟩, rfl⟩

theorem handleResponse_values (now : Timestamp) (q : Requester) (vs : List Json.Value) :
    q.handleResponse now (.opened Response.updateRid vs) = q.handleUpdates now vs := if_pos rfl

theorem handleUpdate_heard {now : Timestamp} {v : Json.Value} {u : SubscriptionUpdate}
    (hread : SubscriptionUpdate.ofEntry? now v = some u) (q : Requester) :
    Heard q (q.handleUpdate now v).1 (q.handleUpdate now v).2 ∧
      (q.handleUpdate now v).2.subscriptions = (q.subscriptions.record u).2 := by
  rw [Requester.handleUpdate, hread]
  dsimp only
  cases he : q.subscriptions.entries.get? u.sid with
  | none =>
    have hrecord : q.subscriptions.record u = (none, q.subscriptions) := by
      rw [SubscriptionTable.record, he]
    rw [hrecord]
    exact ⟨.refl q, rfl⟩
  | some e =>
    have hsame := SubscriptionTable.record_same q.subscriptions u
    have hrecord : (q.subscriptions.record u).1 = some e.handler := by
      rw [SubscriptionTable.record, he]
    generalize q.subscriptions.record u = recorded at hsame hrecord ⊢
    obtain ⟨handler, table⟩ := recorded
    dsimp only at hsame hrecord ⊢
    rw [hrecord]
    dsimp only
    refine ⟨⟨rfl, ?_, ?_, rfl, rfl⟩, rfl⟩
    · rw [hsame]
    · rw [hsame]

theorem handleUpdates_cons (now : Timestamp) (q : Requester) (v : Json.Value)
    (vs : List Json.Value) : q.handleUpdates now (v :: vs) =
      ((q.handleUpdate now v).1 ++ ((q.handleUpdate now v).2.handleUpdates now vs).1,
        ((q.handleUpdate now v).2.handleUpdates now vs).2) := rfl

/-- All values of a response are kept, one after another. -/
theorem handleUpdates_values (now : Timestamp) {r : Registry} {tree : MemoryTree Binding}
    {sent : List Wish} : ∀ (vs : List SubscriptionUpdate) (q : Requester),
    Coherent q.subscriptions r tree sent (vs ++ us) →
    Heard q (q.handleUpdates now (vs.map fun u => u.toJson.sorted.sorted)).1
        (q.handleUpdates now (vs.map fun u => u.toJson.sorted.sorted)).2 ∧
      Coherent (q.handleUpdates now (vs.map fun u => u.toJson.sorted.sorted)).2.subscriptions r tree
        sent us
  | [], q, h => ⟨.refl q, h⟩
  | u :: vs, q, h => by
    have htravels : u.update.Travels := h.updates u List.mem_cons_self
    have hsid : u.sid < wordBound :=
      Nat.lt_of_lt_of_le (h.coming u List.mem_cons_self) h.ordered.bound
    have hread := SubscriptionUpdate.ofEntry?_toJson htravels hsid now
    obtain ⟨hheard, hrecord⟩ := handleUpdate_heard hread q
    have h1 := h.record
    rw [← hrecord] at h1
    obtain ⟨hheard', h2⟩ := handleUpdates_values now vs _ h1
    rw [List.map_cons, handleUpdates_cons]
    exact ⟨hheard.trans hheard', h2⟩

theorem takeDown_response (now : Timestamp) (f : Feed) (resp : Response) :
    f.takeDown now (.ok (.message (.response resp))) =
      f.afterAsking (f.requester.handleResponse now resp).1
        (f.requester.handleResponse now resp).2 := rfl

theorem Kept.heard {m : Message} {down : List Message} {us' : List SubscriptionUpdate}
    (h : f.Kept ops us) (hdown : f.down = m :: down) (hbrings : Brings down us')
    (hheard : Heard f.requester es q)
    (hcoherent : Coherent q.subscriptions f.responder.registry f.tree
      ((f.responder.registry.ops ++ ops).flatMap (·.wishes)) us') :
    ({ f with down }.afterAsking es q).Kept ops us' := by
  have hopen : ∃ link, f.Open link := h.link.resolve_right fun hshut => by
    rw [hshut.down] at hdown
    cases hdown
  obtain ⟨link, hopen⟩ := hopen
  simp only [afterAsking, hheard.tasks, hheard.silent, List.append_nil]
  exact
    { asks := h.asks
      brings := hbrings
      kinds := h.kinds
      flushing := fun hf => h.flushing (hheard.flushScheduled ▸ hf)
      roused := h.roused
      inbound := h.inbound
      link := .inl ⟨link,
        { hopen with
          requester := hheard.outlet.trans hopen.requester
          subscriptions := hheard.isOpen.trans hopen.subscriptions }⟩
      coherent := hcoherent }

theorem Kept.deliverDown (h : f.Kept ops us) (hlegible : f.Legible c) (now : Timestamp) :
    ∃ us', (f.after c.carry (.deliverDown now)).Kept ops us' := by
  rw [after]
  have hbrings := h.brings
  cases hdown : f.down with
  | nil => exact ⟨us, h⟩
  | cons m down =>
    have hreads : c.Reads m :=
      hlegible m (List.mem_append_right _ (hdown ▸ List.mem_cons_self))
    rw [hdown] at hbrings
    cases hbrings with
    | closed rid hbrings =>
      have hread : Message.read (.response (.closed rid)) = .response (.closed rid) := rfl
      obtain ⟨hheard, hsame⟩ := handleResponse_closed now f.requester rid
      have hcoherent := h.coherent
      rw [← hsame] at hcoherent
      dsimp only
      rw [Encoding.carry_of_reads hreads Message.noConfusion, hread, takeDown_response]
      exact ⟨us, h.heard hdown hbrings hheard hcoherent⟩
    | @values _ us' vs hbrings =>
      have hread : Message.read
          (.response (.opened Response.updateRid (vs.map fun u => u.toJson.sorted))) =
          .response (.opened Response.updateRid (vs.map fun u => u.toJson.sorted.sorted)) := by
        simp [Message.read, Response.read, Response.opened]
      obtain ⟨hheard, hcoherent⟩ := handleUpdates_values now vs f.requester h.coherent
      dsimp only
      rw [Encoding.carry_of_reads hreads Message.noConfusion, hread, takeDown_response,
        handleResponse_values]
      exact ⟨us', h.heard hdown hbrings hheard hcoherent⟩

/-! ## Connections -/

theorem closeLost_tells (stubs : List Stub) :
    (stubs.flatMap Requester.closeLost).filterMap Peer.askedTask? = [] := by
  induction stubs with
  | nil => rfl
  | cons s stubs ih => exact ih

theorem ended_tells (ended : List (Nat × Handler)) :
    (ended.map fun e => RequesterEffect.tell (.ended e.2 e.1)).filterMap Peer.askedTask? = [] := by
  simp [List.filterMap_map, Peer.askedTask?]

theorem Kept.cut (h : f.Kept ops us) : f.cut.Kept [] [] := by
  have htasks : f.requester.disconnect.1.filterMap Peer.askedTask? = [] := by
    rw [Requester.disconnect]
    dsimp only
    rw [List.filterMap_append, closeLost_tells, ended_tells, List.append_nil]
  have hresponder : f.responder.disconnect f.tree =
      ({ f.responder with
          outlet := none, inbound := {}
          registry := (f.responder.registry.closeAll f.tree).1 },
        (f.responder.registry.closeAll f.tree).2) := by
    rw [Responder.disconnect, h.inbound]
    rfl
  rw [Feed.cut, hresponder]
  simp only [afterAsking, htasks, List.append_nil]
  exact
    { asks := .nil
      brings := .nil
      kinds := h.kinds
      flushing := h.flushing
      roused :=
        { draining := h.roused.draining
          waiting := fun hne => absurd rfl hne
          sending := h.roused.sending
          queued := fun hne => absurd rfl hne }
      inbound := rfl
      link := .inr ⟨rfl, rfl, rfl, rfl, rfl, rfl, rfl, rfl, rfl, rfl⟩
      coherent := h.coherent.cut }

theorem Kept.connect (h : f.Kept ops us) (c : Encoding) (link : Nat) :
    (f.after c.carry (.connect link)).Kept ops us := by
  rw [after]
  split
  · exact h
  · exact
      { h.toAlive with
        roused := { h.roused with }
        link := .inl ⟨link, rfl, rfl, rfl, rfl⟩
        coherent := (h.coherent.connect true).same rfl rfl rfl }

/-! ## Runs -/

theorem Kept.run (h : f.Kept ops us) (c : Encoding) (now : Timestamp) (place : Nat) :
    ∃ ops' us', (f.after c.carry (.run now place)).Kept ops' us' := by
  rw [after]
  cases hget : f.tasks[place]? with
  | none => exact ⟨ops, us, h⟩
  | some task =>
    rcases h.kinds task (List.mem_of_getElem? hget) with rfl | ⟨t, rfl⟩
    · obtain ⟨ops', hkept⟩ := h.flush hget now
      exact ⟨_, us, hkept⟩
    · cases t with
      | drain => exact ⟨ops, us, h.drain hget now⟩
      | flush => exact ⟨ops, _, h.sendValues hget now⟩

theorem Kept.after (h : f.Kept ops us) (hlegible : f.Legible c) {m : Move} (hfits : m.Fits f) :
    ∃ ops' us', (f.after c.carry m).Kept ops' us' := by
  cases m with
  | subscribe path qos handler => exact ⟨ops, us, h.subscribe hfits c.carry path qos handler⟩
  | unsubscribe sid => exact ⟨ops, us, h.unsubscribe c.carry sid⟩
  | setValue now path v => exact ⟨ops, us, h.setValue hfits path⟩
  | writeValue now path v permit => exact ⟨ops, us, h.writeValue hfits c.carry path permit⟩
  | run now place => exact h.run c now place
  | deliverUp =>
    obtain ⟨ops', hkept⟩ := h.deliverUp hlegible
    exact ⟨ops', us, hkept⟩
  | deliverDown now =>
    obtain ⟨us', hkept⟩ := h.deliverDown hlegible now
    exact ⟨ops, us', hkept⟩
  | disconnect => exact ⟨[], [], h.cut⟩
  | connect link => exact ⟨ops, us, h.connect c link⟩

theorem kept_of_reachable {tree : MemoryTree Binding} (hwatches : tree.watches = [])
    (hvalues : ∀ path u, tree.readValue path = some u → u.Travels)
    (h : Reachable c tree f) : ∃ ops us, f.Kept ops us := by
  induction h with
  | start => exact ⟨[], [], .start hwatches hvalues⟩
  | move h m fits _ ih =>
    obtain ⟨ops, us, hkept⟩ := ih
    exact hkept.after h.legible fits

end Feed
end PeerLink
