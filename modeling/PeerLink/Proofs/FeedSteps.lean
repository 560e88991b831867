import PeerLink.Proofs.Feed

/-! # Steps of a feed

* `Registry.Roused`: what a registry has to do is among the tasks.
* `Feed.Alive`, `Feed.Kept`: the invariant of a feed. Batches on their way are wishes that come
  after those that wait at the registry.
* `Feed.Kept.subscribe` to `Feed.Kept.sendValues`: calls, changes of the tree and tasks keep it.
-/

namespace PeerLink
set_option autoImplicit false

/-! ## Tasks -/

/-- Where something waits a task is on its way. -/
structure Registry.Roused (r : Registry) (tasks : List PeerTask) : Prop where
  draining : r.draining = true → .respond (.registry .drain) ∈ tasks
  waiting : r.ops ≠ [] → r.draining = true
  sending : r.flushScheduled = true → .respond (.registry .flush) ∈ tasks
  queued : r.queued ≠ [] → r.flushScheduled = true

namespace Registry
variable {r r' : Registry} {es : Effects} {tasks tasks' : List PeerTask}

theorem Roused.mono (h : r.Roused tasks)
    (hsub : ∀ t, .respond (.registry t) ∈ tasks → .respond (.registry t) ∈ tasks') :
    r.Roused tasks' where
  draining := fun hd => hsub _ (h.draining hd)
  waiting := h.waiting
  sending := fun hs => hsub _ (h.sending hs)
  queued := h.queued

theorem Schedules.flushes (h : r.Schedules es r') : ∀ task ∈
    (Responder.ofRegistry es).filterMap Peer.answeredTask?, task = .respond (.registry .flush) := by
  intro task hm
  obtain ⟨e, he, ht⟩ := List.mem_filterMap.mp hm
  obtain ⟨e0, he0, rfl⟩ := List.mem_map.mp he
  rw [h.only e0 he0] at ht
  exact (Option.some.inj ht).symm

theorem Schedules.silent (h : r.Schedules es r') :
    (Responder.ofRegistry es).filterMap Feed.answered? = [] := by
  refine List.filterMap_eq_nil_iff.mpr fun e he => ?_
  obtain ⟨e0, he0, rfl⟩ := List.mem_map.mp he
  rw [h.only e0 he0]
  rfl

theorem Roused.schedules (h : r.Roused tasks) (hs : r.Schedules es r') :
    r'.Roused (tasks ++ (Responder.ofRegistry es).filterMap Peer.answeredTask?) where
  draining := fun hd => List.mem_append_left _ (h.draining (hs.draining ▸ hd))
  waiting := by
    rw [hs.ops, hs.draining]
    exact h.waiting
  sending := by
    intro hf
    rcases hs.flush hf with hf | hf
    · exact List.mem_append_left _ (h.sending hf)
    · refine List.mem_append_right _
        (List.mem_filterMap.mpr ⟨.schedule (.registry .flush), ?_, rfl⟩)
      exact List.mem_map.mpr ⟨_, hf, rfl⟩
  queued := by
    intro hq
    rcases hs.queued hq with hq | hf
    · exact hs.keeps (h.queued hq)
    · exact hf

theorem Roused.enqueue (h : r.Roused tasks) (op : RegistryOp) : (r.enqueue op).2.Roused
    (tasks ++ (Responder.ofRegistry (r.enqueue op).1).filterMap Peer.answeredTask?) where
  draining := by
    intro _
    cases hd : r.draining with
    | true => exact List.mem_append_left _ (h.draining hd)
    | false =>
      refine List.mem_append_right _ ?_
      simp [Registry.enqueue, hd, Responder.ofRegistry, Peer.answeredTask?]
  waiting := fun _ => rfl
  sending := fun hs => List.mem_append_left _ (h.sending hs)
  queued := h.queued

end Registry

namespace Feed

/-! ## The invariant -/

structure Open (f : Feed) (link : Nat) : Prop where
  requester : f.requester.outlet = some ⟨link, true⟩
  responder : f.responder.outlet = some ⟨link, true⟩
  registry : f.responder.registry.outlet = some ⟨link, true⟩
  subscriptions : f.requester.subscriptions.isOpen = true

structure Shut (f : Feed) : Prop where
  requester : f.requester.outlet = none
  subscriptions : f.requester.subscriptions.isOpen = false
  live : f.requester.subscriptions.entries = {}
  toSubscribe : f.requester.subscriptions.toSubscribe = []
  toUnsubscribe : f.requester.subscriptions.toUnsubscribe = []
  held : f.responder.registry.entries = {}
  ops : f.responder.registry.ops = []
  queued : f.responder.registry.queued = []
  up : f.up = []
  down : f.down = []

/-- All that is to be done is under way: the batches `ops` and the values `us`. -/
structure Alive (f : Feed) (ops : List RegistryOp) (us : List SubscriptionUpdate) : Prop where
  asks : Asks f.up ops
  brings : Brings f.down us
  kinds : ∀ task ∈ f.tasks, task = .flush ∨ ∃ t, task = .respond (.registry t)
  flushing : f.requester.subscriptions.flushScheduled = true → .flush ∈ f.tasks
  roused : f.responder.registry.Roused f.tasks
  inbound : f.responder.inbound = {}
  link : (∃ link, f.Open link) ∨ f.Shut

structure Kept (f : Feed) (ops : List RegistryOp) (us : List SubscriptionUpdate) : Prop
    extends f.Alive ops us where
  coherent : Coherent f.requester.subscriptions f.responder.registry f.tree
    ((f.responder.registry.ops ++ ops).flatMap (·.wishes)) us

variable {f : Feed} {ops : List RegistryOp} {us : List SubscriptionUpdate}

theorem Alive.shut (h : f.Alive ops us) (hnone : f.requester.outlet = none) : f.Shut := by
  refine h.link.resolve_left fun ⟨link, hopen⟩ => ?_
  rw [hopen.requester] at hnone
  cases hnone

theorem afterAsking_nil (f : Feed) : f.afterAsking [] f.requester = f := by
  simp [afterAsking]

theorem Kept.start {tree : MemoryTree Binding} (hwatches : tree.watches = [])
    (hvalues : ∀ path u, tree.readValue path = some u → u.Travels) : (start tree).Kept [] [] where
  coherent := Coherent.start hwatches hvalues
  asks := .nil
  brings := .nil
  kinds := fun _ hm => absurd hm List.not_mem_nil
  flushing := nofun
  roused := ⟨nofun, fun h => absurd rfl h, nofun, fun h => absurd rfl h⟩
  inbound := rfl
  link := .inr ⟨rfl, rfl, rfl, rfl, rfl, rfl, rfl, rfl, rfl, rfl⟩

/-! ## Subscriptions -/

theorem mem_tasks_flushIf {tasks : List PeerTask} {scheduled : Bool}
    (h : scheduled = true → .flush ∈ tasks) :
    .flush ∈ tasks ++ (Requester.flushIf (!scheduled)).filterMap Peer.askedTask? := by
  cases scheduled with
  | true => exact List.mem_append_left _ (h rfl)
  | false => exact List.mem_append_right _ List.mem_cons_self

theorem kinds_flushIf {tasks : List PeerTask} {b : Bool}
    (h : ∀ task ∈ tasks, task = .flush ∨ ∃ t, task = .respond (.registry t)) :
    ∀ task ∈ tasks ++ (Requester.flushIf b).filterMap Peer.askedTask?,
      task = .flush ∨ ∃ t, task = .respond (.registry t) := by
  intro task hm
  rcases List.mem_append.mp hm with hm | hm
  · exact h task hm
  · cases b with
    | false => cases hm
    | true => exact .inl (List.mem_singleton.mp hm)

theorem asked_flushIf (b : Bool) : (Requester.flushIf b).filterMap asked? = [] := by
  cases b <;> rfl

theorem Kept.subscribe (h : f.Kept ops us) (hbound : f.requester.subscriptions.nextSid < wordBound)
    (carry : Message → Except FrameError Inbound) (path : String) (qos : Nat) (handler : Handler) :
    (f.after carry (.subscribe path qos handler)).Kept ops us := by
  rcases h.link with ⟨link, hopen⟩ | hshut
  · have hsub : f.requester.subscribe path qos handler =
        (.ok (f.requester.subscriptions.add path qos handler).1,
          Requester.flushIf (!f.requester.subscriptions.flushScheduled),
          { f.requester with
            subscriptions := (f.requester.subscriptions.add path qos handler).2.2 }) := by
      rw [Requester.subscribe, if_pos hopen.subscriptions]
      rfl
    rw [after, hsub]
    exact
      { h with
        coherent := h.coherent.add hbound path qos handler
        asks := by
          simp only [afterAsking, asked_flushIf, List.append_nil]
          exact h.asks
        kinds := kinds_flushIf h.kinds
        flushing := fun _ => mem_tasks_flushIf h.flushing
        roused := h.roused.mono fun _ hm => List.mem_append_left _ hm
        link := .inl ⟨link, { hopen with }⟩ }
  · have hsub : f.requester.subscribe path qos handler =
        (.error .notConnected, [], f.requester) := by
      rw [Requester.subscribe, hshut.subscriptions, if_neg Bool.false_ne_true]
    rw [after, hsub]
    dsimp only
    rw [afterAsking_nil]
    exact h

theorem Kept.unsubscribe (h : f.Kept ops us) (carry : Message → Except FrameError Inbound)
    (sid : Nat) : (f.after carry (.unsubscribe sid)).Kept ops us := by
  have htasks : ∀ b e, (Requester.flushIf b ++ [RequesterEffect.tell e]).filterMap
      Peer.askedTask? = (Requester.flushIf b).filterMap Peer.askedTask? := by
    intro b e
    cases b <;> rfl
  have hasked : ∀ b e, (Requester.flushIf b ++ [RequesterEffect.tell e]).filterMap asked? = [] := by
    intro b e
    cases b <;> rfl
  rw [after, Requester.unsubscribe]
  cases he : f.requester.subscriptions.entries.get? sid with
  | none =>
    have hremove : f.requester.subscriptions.remove sid = (none, f.requester.subscriptions) := by
      rw [SubscriptionTable.remove, he]
    rw [hremove]
    dsimp only
    rw [afterAsking_nil]
    exact h
  | some e =>
    have hlink : ∃ link, f.Open link := h.link.resolve_right fun hshut => by
      rw [hshut.live] at he
      cases he
    obtain ⟨link, hopen⟩ := hlink
    cases hs : e.sent with
    | true =>
      have hcoherent := h.coherent.remove_of_sent he hs
      rw [SubscriptionTable.remove_of_sent he hs] at hcoherent ⊢
      exact
        { h with
          coherent := hcoherent
          asks := by
            simp only [afterAsking, hasked, List.append_nil]
            exact h.asks
          kinds := by
            simp only [afterAsking, htasks]
            exact kinds_flushIf h.kinds
          flushing := by
            intro _
            simp only [afterAsking, htasks]
            exact mem_tasks_flushIf h.flushing
          roused := h.roused.mono fun _ hm => List.mem_append_left _ hm
          link := .inl ⟨link, { hopen with }⟩ }
    | false =>
      have hcoherent := h.coherent.remove_of_unsent he hs
      rw [SubscriptionTable.remove_of_unsent he hs] at hcoherent ⊢
      exact
        { h with
          coherent := hcoherent
          asks := by
            simp only [afterAsking, hasked, List.append_nil]
            exact h.asks
          kinds := by
            simp only [afterAsking, htasks]
            exact kinds_flushIf h.kinds
          flushing := fun hf => List.mem_append_left _ (h.flushing hf)
          roused := h.roused.mono fun _ hm => List.mem_append_left _ hm
          link := .inl ⟨link, { hopen with }⟩ }

/-! ## Values of the tree -/

/-- The registry has heard of something, and its tasks are under way. -/
theorem Alive.answering (h : f.Alive ops us) {es : Registry.Effects} {r : Registry}
    (hs : f.responder.registry.Schedules es r) (tree : MemoryTree Binding)
    (hshut : f.Shut → r.entries = {} ∧ r.queued = []) :
    (f.afterAnswering (Responder.ofRegistry es) { f.responder with registry := r } tree).Alive
      ops us where
  asks := h.asks
  brings := by
    simp only [afterAnswering, hs.silent, List.append_nil]
    exact h.brings
  kinds := by
    intro task hm
    rcases List.mem_append.mp hm with hm | hm
    · exact h.kinds task hm
    · exact .inr ⟨.flush, hs.flushes task hm⟩
  flushing := fun hf => List.mem_append_left _ (h.flushing hf)
  roused := h.roused.schedules hs
  inbound := h.inbound
  link := by
    rcases h.link with ⟨link, hopen⟩ | hclosed
    · exact .inl ⟨link, { hopen with registry := hs.outlet.trans hopen.registry }⟩
    · obtain ⟨hheld, hqueued⟩ := hshut hclosed
      refine .inr
        { hclosed with
          held := hheld
          ops := hs.ops.trans hclosed.ops
          queued := hqueued
          down := ?_ }
      simp only [afterAnswering, hs.silent, List.append_nil]
      exact hclosed.down

theorem onChanges_of_empty {r : Registry} (h : r.entries = {}) (ns : List (Notice Binding)) :
    r.onChanges ns = ([], r) := by
  induction ns with
  | nil => rfl
  | cons n ns ih =>
    have hcur : r.current? n.listener = none := by
      rw [Registry.current?, h]
      rfl
    rw [Registry.onChanges, Registry.onChange, hcur]
    dsimp only
    rw [ih]
    rfl

theorem Kept.setValue (h : f.Kept ops us) {now : Timestamp} {v : Json.Value}
    (hv : ValueUpdate.Travels { value := v, time := now }) (path : String) :
    (f.change (f.tree.setValue now path v).1 (f.tree.setValue now path v).2).Kept ops us := by
  obtain ⟨hs, hcoherent⟩ := h.coherent.setValue path hv
  have halive := h.toAlive.answering hs (f.tree.setValue now path v).2 fun hshut => by
    rw [onChanges_of_empty hshut.held]
    exact ⟨hshut.held, hshut.queued⟩
  rw [← hs.ops] at hcoherent
  exact ⟨halive, hcoherent⟩

theorem change_nil (f : Feed) : f.change [] f.tree = f := by
  simp [change, Responder.onChanges, Registry.onChanges, Responder.ofRegistry, afterAnswering]

/-- A value that may not be written changes nothing. -/
theorem writeValue_cases (t : MemoryTree Binding) (now : Timestamp) (path : String)
    (v : Json.Value) (permit : Permission) :
    (∃ e, t.writeValue now path v permit = (.error e, [], t)) ∨
      t.writeValue now path v permit = (.ok (), t.setValue now path v) := by
  unfold MemoryTree.writeValue
  split
  · exact .inl ⟨_, rfl⟩
  · split
    · exact .inl ⟨_, rfl⟩
    · exact .inr rfl

theorem Kept.writeValue (h : f.Kept ops us) {now : Timestamp} {v : Json.Value}
    (hv : ValueUpdate.Travels { value := v, time := now })
    (carry : Message → Except FrameError Inbound) (path : String) (permit : Permission) :
    (f.after carry (.writeValue now path v permit)).Kept ops us := by
  rcases writeValue_cases f.tree now path v permit with ⟨e, hw⟩ | hw
  · rw [after, hw]
    dsimp only
    rw [change_nil]
    exact h
  · rw [after, hw]
    exact h.setValue hv path

/-! ## Tasks are run -/

theorem mem_eraseIdx_of_ne {α : Type} {tasks : List α} {place : Nat} {a b : α}
    (hget : tasks[place]? = some a) (hm : b ∈ tasks) (hne : b ≠ a) : b ∈ tasks.eraseIdx place := by
  obtain ⟨i, hi⟩ := List.mem_iff_getElem?.mp hm
  refine List.mem_eraseIdx_iff_getElem?.mpr ⟨i, ?_, hi⟩
  rintro rfl
  rw [hget] at hi
  exact hne (Option.some.inj hi).symm

/-- A batch goes out, unless it is empty. -/
def batchEffects (link rid : Nat) (isEmpty : Bool) (op : RegistryOp) : Requester.Effects :=
  if isEmpty then [] else [.send ⟨link, .request (op.request rid)⟩]

theorem sendBatch_of_open {q : Requester} {link : Nat} (hout : q.outlet = some ⟨link, true⟩)
    (isEmpty : Bool) (op : RegistryOp) : ∃ rid pending, q.sendBatch isEmpty (op.request 0) =
      (batchEffects link rid isEmpty op, { q with pending }) := by
  cases isEmpty with
  | true => exact ⟨0, q.pending, rfl⟩
  | false =>
    rw [Requester.sendBatch, Requester.send, hout]
    cases op <;> exact ⟨_, _, rfl⟩

theorem tasks_batchEffects (link rid : Nat) (isEmpty : Bool) (op : RegistryOp) :
    (batchEffects link rid isEmpty op).filterMap Peer.askedTask? = [] := by
  cases isEmpty <;> rfl

theorem asks_batchEffects (link rid : Nat) (isEmpty : Bool) (op : RegistryOp) :
    Asks ((batchEffects link rid isEmpty op).filterMap asked?) (if isEmpty then [] else [op]) := by
  cases isEmpty with
  | true => exact .nil
  | false => exact .cons rid op .nil

theorem flush_of_open {q : Requester} {link : Nat} (hout : q.outlet = some ⟨link, true⟩) :
    ∃ es pending ops,
      q.flush = (es, { q with pending, subscriptions := q.subscriptions.takeBatch.2 }) ∧
      es.filterMap Peer.askedTask? = [] ∧ Asks (es.filterMap asked?) ops ∧
      ops.flatMap (·.wishes) = q.subscriptions.next := by
  obtain ⟨batch, subscriptions, hb⟩ : ∃ batch subscriptions,
      q.subscriptions.takeBatch = (batch, subscriptions) := ⟨_, _, rfl⟩
  obtain ⟨rid1, pending1, h1⟩ := sendBatch_of_open (q := { q with subscriptions }) hout
    batch.subscribe.isEmpty (.subscribe batch.subscribe)
  obtain ⟨rid2, pending2, h2⟩ := sendBatch_of_open
    (q := { q with subscriptions, pending := pending1 }) hout batch.unsubscribe.isEmpty
    (.unsubscribe batch.unsubscribe)
  have hflush : q.flush =
      (batchEffects link rid1 batch.subscribe.isEmpty (.subscribe batch.subscribe) ++
        batchEffects link rid2 batch.unsubscribe.isEmpty (.unsubscribe batch.unsubscribe),
        { q with pending := pending2, subscriptions }) := by
    simp only [RegistryOp.request] at h1 h2
    simp only [Requester.flush, hb, h1, h2]
  have hafter : q.subscriptions.takeBatch.2 = subscriptions := by rw [hb]
  have hasks1 := asks_batchEffects link rid1 batch.subscribe.isEmpty (.subscribe batch.subscribe)
  have hasks2 := asks_batchEffects link rid2 batch.unsubscribe.isEmpty
    (.unsubscribe batch.unsubscribe)
  have hasks := hasks1.append hasks2
  rw [← List.filterMap_append] at hasks
  rw [hflush, hafter]
  refine ⟨_, pending2, _, rfl, ?_, hasks, ?_⟩
  · rw [List.filterMap_append, tasks_batchEffects, tasks_batchEffects, List.append_nil]
  · have hnext : q.subscriptions.next =
        batch.subscribe.map .begins ++ batch.unsubscribe.map .ends := by
      have hbatch : batch = q.subscriptions.takeBatch.1 := by rw [hb]
      rw [hbatch]
      rfl
    rw [hnext, List.flatMap_append]
    congr 1
    · cases batch.subscribe <;> simp [RegistryOp.wishes]
    · cases batch.unsubscribe <;> simp [RegistryOp.wishes]

theorem Kept.flush (h : f.Kept ops us) {place : Nat} (hget : f.tasks[place]? = some .flush)
    (now : Timestamp) : ∃ ops',
      ({ f with tasks := f.tasks.eraseIdx place }.perform now .flush).Kept (ops ++ ops') us := by
  have hkinds : ∀ task ∈ f.tasks.eraseIdx place, task = .flush ∨
      ∃ t, task = .respond (.registry t) :=
    fun task hm => h.kinds task (List.mem_of_mem_eraseIdx hm)
  have hroused := h.roused.mono fun t hm => mem_eraseIdx_of_ne hget hm (by nofun)
  have hcoherent := h.coherent.takeBatch
  rw [perform]
  rcases h.link with ⟨link, hopen⟩ | hshut
  · obtain ⟨es, pending, ops', hflush, htasks, hasks, hnext⟩ := flush_of_open hopen.requester
    rw [← hnext, ← List.flatMap_append, List.append_assoc] at hcoherent
    rw [hflush]
    refine ⟨ops', ?_⟩
    exact
      { asks := h.asks.append hasks
        brings := h.brings
        kinds := by
          simp only [afterAsking, htasks, List.append_nil]
          exact hkinds
        flushing := Bool.noConfusion
        roused := hroused.mono fun _ hm => List.mem_append_left _ hm
        inbound := h.inbound
        link := .inl ⟨link, { hopen with }⟩
        coherent := hcoherent }
  · have hnil : f.requester.subscriptions.next = [] := by
      rw [SubscriptionTable.next, hshut.toSubscribe, hshut.toUnsubscribe]
      rfl
    have hflush : f.requester.flush =
        ([], { f.requester with subscriptions := f.requester.subscriptions.takeBatch.2 }) := by
      rw [Requester.flush]
      simp [SubscriptionTable.takeBatch, hshut.toSubscribe, hshut.toUnsubscribe,
        Requester.sendBatch]
    rw [hnil, List.append_nil] at hcoherent
    rw [hflush]
    refine ⟨[], ?_⟩
    simp only [afterAsking, List.filterMap_nil, List.append_nil]
    exact
      { asks := h.asks
        brings := h.brings
        kinds := hkinds
        flushing := Bool.noConfusion
        roused := hroused
        inbound := h.inbound
        link := .inr
          { hshut with
            live := by
              dsimp only [SubscriptionTable.takeBatch]
              rw [hshut.live, hshut.toSubscribe]
              rfl
            toSubscribe := rfl
            toUnsubscribe := rfl }
        coherent := hcoherent }

theorem Kept.drain (h : f.Kept ops us) {place : Nat}
    (hget : f.tasks[place]? = some (.respond (.registry .drain))) (now : Timestamp) :
    ({ f with tasks := f.tasks.eraseIdx place }.perform now (.respond (.registry .drain))).Kept
      ops us := by
  have hout : f.responder.registry.ops ≠ [] → f.responder.registry.outlet.isSome := by
    intro hne
    rcases h.link with ⟨link, hopen⟩ | hshut
    · rw [hopen.registry]
      rfl
    · exact absurd hshut.ops hne
  have hstart : Coherent f.requester.subscriptions { f.responder.registry with ops := [] } f.tree
      ((f.responder.registry.ops ++ ops).flatMap (·.wishes)) us := h.coherent.same rfl rfl rfl
  rw [List.flatMap_append] at hstart
  obtain ⟨hs, hcoherent⟩ := Coherent.applyAll now f.responder.registry.ops _ _ hstart hout
  have hshut : f.Shut →
      (Registry.applyAll now { f.responder.registry with ops := [] } f.tree
        f.responder.registry.ops).2.1.entries = {} ∧
      (Registry.applyAll now { f.responder.registry with ops := [] } f.tree
        f.responder.registry.ops).2.1.queued = [] := by
    intro hshut
    rw [hshut.ops]
    exact ⟨hshut.held, hshut.queued⟩
  have hrun : Responder.run now f.responder f.tree (.registry .drain) =
      (Responder.ofRegistry (Registry.applyAll now { f.responder.registry with ops := [] } f.tree
          f.responder.registry.ops).1,
        { f.responder with
          registry := { (Registry.applyAll now { f.responder.registry with ops := [] } f.tree
            f.responder.registry.ops).2.1 with draining := false } },
        (Registry.applyAll now { f.responder.registry with ops := [] } f.tree
          f.responder.registry.ops).2.2) := rfl
  rw [perform, hrun]
  generalize Registry.applyAll now { f.responder.registry with ops := [] } f.tree
    f.responder.registry.ops = applied at hs hcoherent hshut ⊢
  obtain ⟨es, r, tree⟩ := applied
  dsimp only at hs hcoherent hshut ⊢
  -- From here on the registry counts as drained.
  have hs' : Registry.Schedules
      { f.responder.registry with ops := [], draining := false } es
      { r with draining := false } := { hs with draining := rfl }
  have halive : Alive
      { f with
        tasks := f.tasks.eraseIdx place
        responder := { f.responder with
          registry := { f.responder.registry with ops := [], draining := false } } } ops us :=
    { h.toAlive with
      kinds := fun task hm => h.kinds task (List.mem_of_mem_eraseIdx hm)
      flushing := fun hf => mem_eraseIdx_of_ne hget (h.flushing hf) (by nofun)
      roused :=
        { draining := nofun
          waiting := fun hne => absurd rfl hne
          sending := fun hf => mem_eraseIdx_of_ne hget (h.roused.sending hf) (by nofun)
          queued := h.roused.queued }
      link := h.link.imp (fun ⟨link, hopen⟩ => ⟨link, { hopen with }⟩)
        fun hshut => { hshut with ops := rfl } }
  refine ⟨halive.answering hs' tree fun hs0 => hshut (h.shut hs0.requester), ?_⟩
  have hops : r.ops = [] := hs.ops
  dsimp only [afterAnswering]
  rw [hops, List.nil_append]
  exact hcoherent.same rfl rfl rfl

/-- Values that wait go out as one response, if there are any. -/
theorem run_flush (now : Timestamp) (h : f.Alive ops us) : ∃ es,
    f.responder.run now f.tree (.registry .flush) =
      (es,
        { f.responder with
          registry := { f.responder.registry with flushScheduled := false, queued := [] } },
        f.tree) ∧
      es.filterMap Peer.answeredTask? = [] ∧
      Brings (es.filterMap answered?) f.responder.registry.queued ∧
      (f.Shut → es.filterMap answered? = []) := by
  cases hq : f.responder.registry.queued with
  | nil =>
    refine ⟨[], ?_, rfl, .nil, fun _ => rfl⟩
    simp [Responder.run, Registry.run, Registry.flush, hq, Responder.ofRegistry]
  | cons u queued =>
    have hopen : ∃ link, f.Open link := h.link.resolve_right fun hshut => by
      rw [hshut.queued] at hq
      cases hq
    obtain ⟨link, hopen⟩ := hopen
    refine ⟨[.send ⟨link, .response (.opened Response.updateRid
      ((u :: queued).map fun u => u.toJson.sorted))⟩], ?_, rfl, ?_, fun hshut => ?_⟩
    · simp [Responder.run, Registry.run, Registry.flush, hq, Responder.ofRegistry, hopen.registry,
        sendTo, Outlet.send]
    · have hbrings := Brings.values (u :: queued) .nil
      rw [List.append_nil] at hbrings
      exact hbrings
    · rw [hshut.queued] at hq
      cases hq

theorem Kept.sendValues (h : f.Kept ops us) {place : Nat}
    (hget : f.tasks[place]? = some (.respond (.registry .flush))) (now : Timestamp) :
    ({ f with tasks := f.tasks.eraseIdx place }.perform now (.respond (.registry .flush))).Kept
      ops (us ++ f.responder.registry.queued) := by
  obtain ⟨es, hrun, htasks, hbrings, hsilent⟩ := run_flush now h.toAlive
  rw [perform, hrun]
  simp only [afterAnswering, htasks, List.append_nil]
  exact
    { asks := h.asks
      brings := h.brings.append hbrings
      kinds := fun task hm => h.kinds task (List.mem_of_mem_eraseIdx hm)
      flushing := fun hf => mem_eraseIdx_of_ne hget (h.flushing hf) (by nofun)
      roused :=
        { draining := fun hd => mem_eraseIdx_of_ne hget (h.roused.draining hd) (by nofun)
          waiting := h.roused.waiting
          sending := nofun
          queued := fun hne => absurd rfl hne }
      inbound := h.inbound
      link := by
        rcases h.link with ⟨link, hopen⟩ | hshut
        · exact .inl ⟨link, { hopen with }⟩
        · refine .inr { hshut with queued := rfl, down := ?_ }
          dsimp only
          rw [hsilent hshut, List.append_nil]
          exact hshut.down
      coherent := h.coherent.flush.same rfl rfl rfl }

end Feed
end PeerLink
