import PeerLink.Proofs.RequestStreams

/-! # Runs of a requester

* `Requester.Call`, `Requester.perform`: what a requester can be asked to do, and what comes of it.
* `Requester.perform_steps`: a call makes steps on the open requests.
* `Requester.streams_close_once`: what handlers are told over any run.
-/

namespace PeerLink
set_option autoImplicit false

open Json (Value)

namespace Requester

/-! ## Calls -/

/-- What a requester can be asked to do. Its peer may answer anything. -/
inductive Call
  | connect (link : Nat)
  | loseWriter (link : Nat)
  | disconnect
  | list (path : String) (handler : Handler)
  | invoke (path : String) (params : Option Value) (handler : Handler)
  | set (path : String) (value : Value) (permit : Permission) (handler : Handler)
  | remove (path : String) (handler : Handler)
  | close (rid : Nat)
  | subscribe (path : String) (qos : Nat) (handler : Handler)
  | unsubscribe (sid : Nat)
  | flush
  | respond (now : Timestamp) (resp : Response)

/-- What came of a call: the number or the error of a request, the requests that were granted, what
is to be done, and the requester. -/
structure Outcome where
  result : Option (Except SessionError Nat) := none
  granted : List (Nat × Handler) := []
  effects : Effects := []
  after : Requester

/-- A request is granted if it has a number. -/
def grants (handler : Handler) (r : Except SessionError Nat) : List (Nat × Handler) :=
  match r with
  | .ok rid => [(rid, handler)]
  | .error _ => []

def asked (handler : Handler) (r : Except SessionError Nat × Effects × Requester) : Outcome :=
  { result := some r.1, granted := grants handler r.1, effects := r.2.1, after := r.2.2 }

/-- The request that a batch travels in, which has no handler. -/
def batchGrants (r : Requester) (isEmpty : Bool) (req : Request) : List (Nat × Handler) :=
  if isEmpty then [] else grants none (r.send req none).1

/-- The requests of a flush: one for the subscriptions that begin, then one for those that end. -/
def flushGrants (r : Requester) : List (Nat × Handler) :=
  let (batch, subscriptions) := r.subscriptions.takeBatch
  let r := { r with subscriptions }
  let req : Request := { rid := 0, method := .subscribe, paths := batch.subscribe }
  r.batchGrants batch.subscribe.isEmpty req ++
    (r.sendBatch batch.subscribe.isEmpty req).2.batchGrants batch.unsubscribe.isEmpty
      { rid := 0, method := .unsubscribe, sids := batch.unsubscribe }

def perform (r : Requester) : Call → Outcome
  | .connect link => { after := r.connect link }
  | .loseWriter link => { after := r.loseWriter link }
  | .disconnect => { effects := r.disconnect.1, after := r.disconnect.2 }
  | .list path handler => asked handler (r.list path handler)
  | .invoke path params handler => asked handler (r.invoke path params handler)
  | .set path value permit handler => asked handler (r.set path value permit handler)
  | .remove path handler => asked handler (r.remove path handler)
  | .close rid => { effects := (r.close rid).2.1, after := (r.close rid).2.2 }
  | .subscribe path qos handler =>
    { effects := (r.subscribe path qos handler).2.1, after := (r.subscribe path qos handler).2.2 }
  | .unsubscribe sid => { effects := (r.unsubscribe sid).2.1, after := (r.unsubscribe sid).2.2 }
  | .flush => { granted := r.flushGrants, effects := r.flush.1, after := r.flush.2 }
  | .respond now resp =>
    { effects := (r.handleResponse now resp).1, after := (r.handleResponse now resp).2 }

def told (effects : Effects) : List HandlerEvent :=
  effects.filterMap fun effect =>
    match effect with
    | .tell e => some e
    | _ => none

@[simp] theorem told_append (es es' : Effects) : told (es ++ es') = told es ++ told es' :=
  List.filterMap_append

@[simp] theorem told_sends (os : List Outgoing) : told (sends os) = [] := by
  simp [told, sends]

@[simp] theorem told_map_tell (es : List HandlerEvent) : told (es.map .tell) = es := by
  simp [told, List.filterMap_map]

@[simp] theorem told_flushIf (schedule : Bool) : told (flushIf schedule) = [] := by
  cases schedule <;> rfl

/-! ## Calls as steps -/

open PendingTable (Step Steps)

variable {r : Requester}

theorem send_steps (r : Requester) (req : Request) (handler : Handler) :
    Steps r.pending (grants handler (r.send req handler).1) (told (r.send req handler).2.1)
      (r.send req handler).2.2.pending := by
  unfold send
  cases r.outlet with
  | none => exact .refl
  | some outlet =>
    simp only
    split
    · rw [told_sends]
      exact (Step.opens req.method req.path handler).steps
    · exact Step.skips.steps

theorem sendBatch_steps (r : Requester) (isEmpty : Bool) (req : Request) :
    Steps r.pending (r.batchGrants isEmpty req) (told (r.sendBatch isEmpty req).1)
      (r.sendBatch isEmpty req).2.pending := by
  unfold sendBatch batchGrants
  cases isEmpty with
  | true => exact .refl
  | false => exact r.send_steps req none

theorem flush_steps (r : Requester) :
    Steps r.pending r.flushGrants (told r.flush.1) r.flush.2.pending := by
  unfold flush flushGrants
  obtain ⟨batch, subscriptions⟩ := r.subscriptions.takeBatch
  simp only [told_append]
  exact (sendBatch_steps { r with subscriptions } _ _).trans (sendBatch_steps _ _ _)

theorem close_steps (r : Requester) (rid : Nat) :
    Steps r.pending [] (told (r.close rid).2.1) (r.close rid).2.2.pending := by
  unfold close
  cases hs : r.pending.get? rid with
  | none =>
    simp only [PendingTable.remove, hs]
    exact .refl
  | some stub =>
    simp only [PendingTable.remove, hs, told_append, told_sends, List.nil_append]
    exact (Step.ends hs .closed).steps

theorem handleUpdates_elsewhere (now : Timestamp) : ∀ (vs : List Value) (r : Requester),
    (r.handleUpdates now vs).2.pending = r.pending ∧
      ∀ e ∈ told (r.handleUpdates now vs).1, e.stream? = none
  | [], r => ⟨rfl, nofun⟩
  | v :: vs, r => by
    have hv : (r.handleUpdate now v).2.pending = r.pending ∧
        ∀ e ∈ told (r.handleUpdate now v).1, e.stream? = none := by
      unfold handleUpdate
      split
      · exact ⟨rfl, nofun⟩
      · split
        · exact ⟨rfl, nofun⟩
        · refine ⟨rfl, fun e he => ?_⟩
          rw [List.mem_singleton.mp he]
          rfl
    obtain ⟨hpending, hevents⟩ := handleUpdates_elsewhere now vs (r.handleUpdate now v).2
    refine ⟨hpending.trans hv.1, fun e he => ?_⟩
    rw [handleUpdates, told_append] at he
    exact (List.mem_append.mp he).elim (hv.2 e) (hevents e)

theorem handleResponse_steps (now : Timestamp) (r : Requester) (resp : Response) :
    Steps r.pending [] (told (r.handleResponse now resp).1)
      (r.handleResponse now resp).2.pending := by
  unfold handleResponse
  split
  · obtain ⟨hpending, hevents⟩ := handleUpdates_elsewhere now resp.updates r
    rw [hpending]
    exact (Step.elsewhere hevents).steps
  · cases hs : r.pending.get? resp.rid with
    | none =>
      simp only
      split
      · exact .refl
      · rw [told_sends]
        exact .refl
    | some stub =>
      simp only [told_map_tell, responseEvents]
      cases he : resp.error with
      | some e =>
        have hclosing : resp.isClosing = true := by simp [Response.isClosing, he]
        simp only [hclosing, if_true]
        exact (Step.ends hs (.failed e)).steps
      | none =>
        have hheard := (Step.hears hs).steps
        by_cases hclosing : resp.isClosing = true
        · simp only [hclosing, if_true]
          exact hheard.tail (.ends hs .closed)
        · simp only [hclosing]
          exact hheard

/-! ## The end of a connection -/

theorem told_flatMap {α : Type} (f : α → Effects) (xs : List α) :
    told (xs.flatMap f) = xs.flatMap fun x => told (f x) := by
  induction xs with
  | nil => rfl
  | cons x xs ih => rw [List.flatMap_cons, List.flatMap_cons, told_append, ih]

theorem closeLost_steps : ∀ (ss : List Stub) (t : PendingTable), (ss.map (·.rid)).Nodup →
    (∀ s ∈ ss, t.get? s.rid = some s) →
    Steps t [] (told (ss.flatMap closeLost)) (ss.foldl (fun t s => (t.remove s.rid).2) t)
  | [], _, _, _ => .refl
  | s :: ss, t, hnodup, hopen => by
    obtain ⟨hnot, hnodup'⟩ := List.nodup_cons.mp hnodup
    have hs : t.get? s.rid = some s := hopen s List.mem_cons_self
    have hrest : ∀ s' ∈ ss, (t.remove s.rid).2.get? s'.rid = some s' := by
      intro s' hs'
      have hne : s'.rid ≠ s.rid := fun he => hnot (List.mem_map.mpr ⟨s', hs', he⟩)
      have hget : (t.remove s.rid).2.get? s'.rid = _ := Table.get?_erase t.stubs s.rid s'.rid
      rw [hget, if_neg hne]
      exact hopen s' (List.mem_cons_of_mem s hs')
    have hlast : Step t [] (told (closeLost s)) (t.remove s.rid).2 :=
      .ends hs (.failed .connectionLost)
    rw [List.flatMap_cons, told_append]
    exact hlast.steps.trans (closeLost_steps ss _ hnodup' hrest)

theorem foldl_remove_nextRid : ∀ (ss : List Stub) (t : PendingTable),
    (ss.foldl (fun t s => (t.remove s.rid).2) t).nextRid = t.nextRid
  | [], _ => rfl
  | _ :: ss, _ => foldl_remove_nextRid ss _

theorem foldl_remove_entries : ∀ (ss : List Stub) (t : PendingTable),
    (ss.foldl (fun t s => (t.remove s.rid).2) t).stubs.entries =
      t.stubs.entries.filter fun e => e.1 ∉ ss.map (·.rid)
  | [], t => by simp
  | s :: ss, t => by
    rw [List.foldl_cons, foldl_remove_entries ss]
    simp only [PendingTable.remove, Table.erase, List.filter_filter, List.map_cons, List.mem_cons,
      not_or, Bool.decide_and, Bool.and_comm]

/-- All open requests, in order of their numbers. -/
theorem drain_stubs {t : PendingTable} {granted : List (Nat × Handler)}
    {events : List HandlerEvent} (h : t.Kept granted events) :
    (t.drain.1.map (·.rid)).Nodup ∧ (∀ s, s ∈ t.drain.1 ↔ t.get? s.rid = some s) ∧
      t.drain.1.foldl (fun t s => (t.remove s.rid).2) t = t.drain.2 := by
  have hkeyed : ∀ e ∈ t.stubs.entries, e.2.rid = e.1 := fun e he =>
    (h.stubs e.1 e.2 ((Table.mem_entries h.distinct).mp he)).1
  have hrids : t.drain.1.map (·.rid) = (t.stubs.toSorted (· ≤ ·)).map (·.1) := by
    simp only [PendingTable.drain, List.map_map]
    exact List.map_congr_left fun e he => hkeyed e (Table.mem_toSorted.mp he)
  have hperm : (t.drain.1.map (·.rid)).Perm t.stubs.keys := by
    rw [hrids]
    exact (List.mergeSort_perm _ _).map _
  refine ⟨hperm.nodup_iff.mpr h.distinct, fun s => ?_, ?_⟩
  · simp only [PendingTable.drain, List.mem_map, Table.mem_toSorted]
    constructor
    · rintro ⟨e, he, rfl⟩
      rw [hkeyed e he]
      exact (Table.mem_entries h.distinct).mp he
    · intro hs
      exact ⟨(s.rid, s), (Table.mem_entries h.distinct).mpr hs, rfl⟩
  · have hentries : (t.drain.1.foldl (fun t s => (t.remove s.rid).2) t).stubs.entries = [] := by
      rw [foldl_remove_entries, List.filter_eq_nil_iff]
      intro e he
      have hmem : e.1 ∈ t.drain.1.map (·.rid) := hperm.mem_iff.mpr (List.mem_map_of_mem he)
      simpa using hmem
    have hnext := foldl_remove_nextRid t.drain.1 t
    generalize t.drain.1.foldl (fun t s => (t.remove s.rid).2) t = t' at hentries hnext
    obtain ⟨next, ⟨entries⟩⟩ := t'
    simp only at hentries hnext
    rw [hentries, hnext]
    rfl

theorem disconnect_steps {granted : List (Nat × Handler)} {events : List HandlerEvent}
    (h : r.pending.Kept granted events) :
    Steps r.pending [] (told r.disconnect.1) r.disconnect.2.pending := by
  obtain ⟨hnodup, hstubs, hfinal⟩ := drain_stubs h
  have hlost := closeLost_steps r.pending.drain.1 r.pending hnodup fun s hs => (hstubs s).mp hs
  rw [hfinal] at hlost
  have hended : ∀ e ∈ told (r.subscriptions.drain.1.map fun e => .tell (.ended e.2 e.1)),
      e.stream? = none := by
    intro e he
    obtain ⟨effect, heffect, he⟩ := List.mem_filterMap.mp he
    obtain ⟨entry, -, rfl⟩ := List.mem_map.mp heffect
    rw [← Option.some.inj he]
    rfl
  have heffects : told r.disconnect.1 = told (r.pending.drain.1.flatMap closeLost) ++
      told (r.subscriptions.drain.1.map fun e => .tell (.ended e.2 e.1)) := told_append _ _
  rw [heffects]
  exact hlost.tail (.elsewhere hended)

/-! ## Runs -/

theorem subscribe_quiet (path : String) (qos : Nat) (handler : Handler) :
    (r.subscribe path qos handler).2.2.pending = r.pending ∧
      told (r.subscribe path qos handler).2.1 = [] := by
  unfold subscribe
  split
  · exact ⟨rfl, told_flushIf _⟩
  · exact ⟨rfl, rfl⟩

theorem unsubscribe_elsewhere (sid : Nat) :
    (r.unsubscribe sid).2.2.pending = r.pending ∧
      ∀ e ∈ told (r.unsubscribe sid).2.1, e.stream? = none := by
  unfold unsubscribe
  split
  · exact ⟨rfl, nofun⟩
  · refine ⟨rfl, fun e he => ?_⟩
    rw [told_append, told_flushIf, List.nil_append] at he
    rw [List.mem_singleton.mp he]
    rfl

theorem perform_steps {granted : List (Nat × Handler)} {events : List HandlerEvent}
    (h : r.pending.Kept granted events) (call : Call) :
    Steps r.pending (r.perform call).granted (told (r.perform call).effects)
      (r.perform call).after.pending := by
  cases call with
  | connect link => exact .refl
  | loseWriter link => exact .refl
  | disconnect => exact disconnect_steps h
  | list path handler => exact r.send_steps _ handler
  | invoke path params handler => exact r.send_steps _ handler
  | set path value permit handler => exact r.send_steps _ handler
  | remove path handler => exact r.send_steps _ handler
  | close rid => exact r.close_steps rid
  | subscribe path qos handler =>
    obtain ⟨hpending, htold⟩ := subscribe_quiet (r := r) path qos handler
    simp only [perform, hpending, htold]
    exact .refl
  | unsubscribe sid =>
    obtain ⟨hpending, hevents⟩ := unsubscribe_elsewhere (r := r) sid
    simp only [perform, hpending]
    exact (Step.elsewhere hevents).steps
  | flush => exact r.flush_steps
  | respond now resp => exact r.handleResponse_steps now resp

/-- A requester, the requests it was granted, and all that handlers were told. -/
structure Run where
  requester : Requester := {}
  granted : List (Nat × Handler) := []
  events : List HandlerEvent := []

def Run.after (run : Run) (call : Call) : Run :=
  let outcome := run.requester.perform call
  { requester := outcome.after
    granted := run.granted ++ outcome.granted
    events := run.events ++ told outcome.effects }

def Run.ofCalls (calls : List Call) : Run := calls.foldl Run.after {}

/-- Requests are open or closed as their handlers were told. -/
def Run.Kept (run : Run) : Prop := run.requester.pending.Kept run.granted run.events

theorem Run.Kept.after {run : Run} (h : run.Kept) (call : Call) : (run.after call).Kept :=
  PendingTable.Kept.steps h (perform_steps h call)

theorem Run.kept_ofCalls (calls : List Call) : (Run.ofCalls calls).Kept := by
  have hrun : ∀ (calls : List Call) (run : Run), run.Kept → (calls.foldl Run.after run).Kept := by
    intro calls
    induction calls with
    | nil => exact fun run h => h
    | cons call calls ih => exact fun run h => ih (run.after call) (h.after call)
  exact hrun calls {} .start

/-- A request that is open may be closed; its number does not go to another. -/
theorem Run.Kept.stub_keeps {run : Run} (h : run.Kept) {rid : Nat}
    (hused : rid < run.requester.pending.nextRid) (calls : List Call) :
    (calls.foldl Run.after run).requester.pending.get? rid = none ∨
      (calls.foldl Run.after run).requester.pending.get? rid =
        run.requester.pending.get? rid := by
  induction calls generalizing run with
  | nil => exact .inr rfl
  | cons call calls ih =>
    obtain ⟨hused', hkept⟩ := (perform_steps h call).keeps hused
    obtain hnone | hsame := ih (h.after call) hused'
    · exact .inl hnone
    · exact hkept.imp hsame.trans hsame.trans

/-! ## What handlers are told -/

/-- A request that is granted is registered under a number that no open request has. -/
theorem get?_of_send_ok {req : Request} {handler : Handler} {rid : Nat}
    (h : (r.send req handler).1 = .ok rid) : r.pending.get? rid = none := by
  unfold send at h
  cases ho : r.outlet with
  | none =>
    rw [ho] at h
    cases h
  | some outlet =>
    rw [ho] at h
    simp only at h
    split at h
    · rw [← Except.ok.inj h]
      exact r.pending.get?_allocate
    · cases h

/-- A request that is refused leaves no trace. -/
theorem send_refused {req : Request} {handler : Handler} {e : SessionError}
    (h : (r.send req handler).1 = .error e) :
    told (r.send req handler).2.1 = [] ∧
      (r.send req handler).2.2.pending.stubs = r.pending.stubs := by
  unfold send at h ⊢
  cases ho : r.outlet with
  | none => exact ⟨rfl, rfl⟩
  | some outlet =>
    rw [ho] at h
    simp only at h ⊢
    split at h
    · cases h
    · rename_i hclosed
      rw [if_neg hclosed]
      exact ⟨rfl, rfl⟩

theorem perform_refused {call : Call} {e : SessionError}
    (h : (r.perform call).result = some (.error e)) :
    (r.perform call).granted = [] ∧ told (r.perform call).effects = [] ∧
      (r.perform call).after.pending.stubs = r.pending.stubs := by
  have asked_refused : ∀ {req : Request} {handler : Handler},
      some (r.send req handler).1 = some (.error e) →
        grants handler (r.send req handler).1 = [] ∧ told (r.send req handler).2.1 = [] ∧
          (r.send req handler).2.2.pending.stubs = r.pending.stubs := by
    intro req handler h
    have he := Option.some.inj h
    exact ⟨by rw [he, grants], send_refused he⟩
  cases call with
  | list path handler => exact asked_refused h
  | invoke path params handler => exact asked_refused h
  | set path value permit handler => exact asked_refused h
  | remove path handler => exact asked_refused h
  | connect | loseWriter | disconnect | close | subscribe | unsubscribe | flush | respond => cases h

/-- What a requester owes to those who use it. -/
structure Run.Fair (run : Run) : Prop where
  /-- The numbers of open requests are distinct, and none is zero. -/
  distinct : (run.requester.pending.stubs.values.map (·.rid)).Nodup
  positive : ∀ s ∈ run.requester.pending.stubs.values, s.rid ≠ 0
  /-- No number is granted twice. -/
  once : (run.granted.map Prod.fst).Nodup
  /-- Handlers are told about requests that were granted to them, and about no others. -/
  known : ∀ e ∈ run.events, ∀ g, e.stream? = some g → g ∈ run.granted
  /-- As long as a request is open, its handler is told of responses. -/
  running : ∀ g ∈ run.granted, (run.requester.pending.get? g.1).isSome →
    Responses g (trace g run.events)
  /-- When it is no longer open, the handler has been told so once, perhaps with an error before,
  and of nothing after that. -/
  ended : ∀ g ∈ run.granted, run.requester.pending.get? g.1 = none →
    ∃ rs last, trace g run.events = rs ++ last ∧ Responses g rs ∧ Ending g last
  /-- A request that is refused is told to nobody, and open requests stay as they were. -/
  refused : ∀ call e, (run.requester.perform call).result = some (.error e) →
    (run.after call).granted = run.granted ∧ (run.after call).events = run.events ∧
      (run.after call).requester.pending.stubs = run.requester.pending.stubs
  /-- When the connection ends, no request is left, and all that were open are closed. -/
  disconnected : (run.after .disconnect).requester.pending.stubs.isEmpty = true ∧
    ∀ s ∈ run.requester.pending.stubs.values, ∃ more,
      (run.after .disconnect).events = run.events ++ more ∧ .closed s.handler s.rid ∈ more

theorem Run.Kept.fair {run : Run} (h : run.Kept) : run.Fair where
  distinct := by
    have hrids : run.requester.pending.stubs.values.map (·.rid) =
        run.requester.pending.stubs.keys := by
      simp only [Table.values, Table.keys, List.map_map]
      exact List.map_congr_left fun e he =>
        (h.stubs e.1 e.2 ((Table.mem_entries h.distinct).mp he)).1
    rw [hrids]
    exact h.distinct
  positive := by
    intro s hs
    obtain ⟨e, he, rfl⟩ := List.mem_map.mp hs
    obtain ⟨hrid, hmem⟩ := h.stubs e.1 e.2 ((Table.mem_entries h.distinct).mp he)
    have hpos := (h.numbers _ hmem).1
    rw [hrid]
    exact Nat.ne_of_gt hpos
  once := h.once
  known := h.known
  running := h.running
  ended := h.ended
  refused := by
    intro call e he
    obtain ⟨hgranted, htold, hstubs⟩ := perform_refused he
    simp only [Run.after, hgranted, htold, List.append_nil]
    exact ⟨trivial, trivial, hstubs⟩
  disconnected := by
    refine ⟨rfl, fun s hs => ⟨_, rfl, ?_⟩⟩
    obtain ⟨e, he, rfl⟩ := List.mem_map.mp hs
    have hget := (Table.mem_entries h.distinct).mp he
    have hmem : e.2 ∈ run.requester.pending.drain.1 := by
      rw [(drain_stubs h).2.1, (h.stubs e.1 e.2 hget).1]
      exact hget
    have heffects : told (run.requester.perform .disconnect).effects =
        told (run.requester.pending.drain.1.flatMap closeLost) ++ told _ := told_append _ _
    rw [heffects, told_flatMap]
    refine List.mem_append_left _ (List.mem_flatMap.mpr ⟨e.2, hmem, ?_⟩)
    exact List.mem_cons_of_mem _ List.mem_cons_self

/-- Over any run handlers are told as they should be, and a request is only ever registered where no
other is. -/
theorem streams_close_once (calls : List Call) :
    (Run.ofCalls calls).Fair ∧ ∀ (r : Requester) (req : Request) (handler : Handler) (rid : Nat),
      (r.send req handler).1 = .ok rid → r.pending.get? rid = none :=
  ⟨(Run.kept_ofCalls calls).fair, fun _ _ _ _ => get?_of_send_ok⟩

/-- A listing that is answered once and then closed, and another while there is no connection. -/
def listing : List Call :=
  [.list "/" (some "early"), .connect 0, .list "/" (some "tree"), .respond ⟨0, 0⟩ (.opened 1),
    .close 1, .respond ⟨0, 0⟩ (.closed 1)]

theorem listing_closes_once : (1, some "tree") ∈ (Run.ofCalls listing).granted ∧
    (Run.ofCalls listing).requester.pending.get? 1 = none ∧
    ∃ rs last, trace (1, some "tree") (Run.ofCalls listing).events = rs ++ last ∧
      Responses (1, some "tree") rs ∧ Ending (1, some "tree") last := by
  have hgranted : (1, some "tree") ∈ (Run.ofCalls listing).granted := by decide
  have hclosed : (Run.ofCalls listing).requester.pending.get? 1 = none := rfl
  exact ⟨hgranted, hclosed, (streams_close_once listing).1.ended _ hgranted hclosed⟩

end Requester
end PeerLink
