import PeerLink.Proofs.DialogueRuns
import PeerLink.Proofs.RequestRuns
import PeerLink.Proofs.RoundTrip
import PeerLink.Proofs.ServiceRuns

/-! # Values that are set

A request to set a value goes from a requester to the tree that the other peer serves, and what
comes of the call goes back to the handler.

* `SetCall`: such a request, and who hears what comes of it.
* `Journal`: a tree of any kind, and what was written to it.
* `SetCall.run_writes`, `SetCall.run_sends`: its task writes once, and says what came of it.
* `SetCall.Carried`: the way there and back.
* `SetCall.carries`: every value goes this way that is not null; `SetCall.null_lost`: null does not.
-/

namespace PeerLink
set_option autoImplicit false

open Json (Value)

/-! ## Trees that record what is written -/

/-- A call to write a value, and what came of it. -/
structure Write where
  path : String
  value : Value
  permit : Permission
  outcome : Outcome Unit

structure Journal (σ : Type) where
  tree : σ
  /-- The oldest first. -/
  writes : List Write := []

instance {σ : Type} [ValueTree σ] : ValueTree (Journal σ) where
  listChildren t path := ValueTree.listChildren t.tree path
  readValue t path := ValueTree.readValue t.tree path
  writeValue now t path value permit :=
    let (outcome, notices, tree) := ValueTree.writeValue now t.tree path value permit
    (outcome, notices, ⟨tree, t.writes ++ [⟨path, value, permit, outcome⟩]⟩)
  invoke now t path params :=
    let (outcome, notices, tree) := ValueTree.invoke now t.tree path params
    (outcome, notices, { t with tree })
  watch now t path b :=
    let (watch, notices, tree) := ValueTree.watch now t.tree path b
    (watch, notices, { t with tree })
  unwatch t id := { t with tree := ValueTree.unwatch t.tree id }
  streamClosed t path method := { t with tree := ValueTree.streamClosed t.tree path method }

/-! ## Calls to set a value -/

structure SetCall where
  rid : Nat
  path : String
  value : Value
  permit : Permission
  handler : Handler

namespace SetCall

def request (s : SetCall) : Request :=
  { rid := s.rid, method := .set, path := some s.path, value := some s.value,
    permit := some s.permit }

def stub (s : SetCall) : Stub := ⟨s.rid, .set, some s.path, s.handler⟩

def stream (s : SetCall) (token : Nat) : StreamKey := ⟨s.rid, token⟩

def task (s : SetCall) (token : Nat) : ResponderTask :=
  .set (s.stream token) s.path (some s.value) (some s.permit)

/-- The response that tells what came of the call. -/
def answer? (s : SetCall) : Outcome Unit → Option Response
  | .answered () => some (.closed s.rid)
  | .refused e => some (.failed s.rid e)
  | .died => none

/-- What the handler is told of it. -/
def news (s : SetCall) : Outcome Unit → List HandlerEvent
  | .answered () => [.response s.handler (.closed s.rid), .closed s.handler s.rid]
  | .refused e => [.failed s.handler s.rid e, .closed s.handler s.rid]
  | .died => []

variable {s : SetCall}

/-! ## The requester -/

/-- A request that is granted is sent once, and is open from then on. -/
theorem granted {r : Requester}
    (h : (r.set s.path s.value s.permit s.handler).1 = .ok s.rid) :
    ∃ link, r.outlet = some ⟨link, true⟩ ∧
      (r.set s.path s.value s.permit s.handler).2.1 = [.send ⟨link, .request s.request⟩] ∧
      (r.set s.path s.value s.permit s.handler).2.2.pending.get? s.rid = some s.stub := by
  unfold Requester.set Requester.send at h ⊢
  cases houtlet : r.outlet with
  | none =>
    rw [houtlet] at h
    cases h
  | some outlet =>
    rw [houtlet] at h
    dsimp only at h ⊢
    split at h
    · rename_i hopen
      obtain ⟨link, isOpen⟩ := outlet
      obtain rfl : isOpen = true := hopen
      have hrid := Except.ok.inj h
      simp only [if_true]
      rw [hrid]
      exact ⟨link, rfl, rfl, (Table.get?_insert _ _ _ _).trans (if_pos rfl)⟩
    · cases h

/-- The handler is told what the response says, and the request is no longer open. -/
theorem handleResponse_answer (now : Timestamp) {q : Requester} {o : Outcome Unit}
    {resp : Response} (hresp : s.answer? o = some resp) (hrid : s.rid ≠ Response.updateRid)
    (hstub : q.pending.get? s.rid = some s.stub) :
    q.handleResponse now resp =
      ((s.news o).map .tell, { q with pending := (q.pending.remove s.rid).2 }) := by
  cases o with
  | died => cases hresp
  | answered | refused =>
    obtain rfl := Option.some.inj hresp
    simp only [Requester.handleResponse, Response.closed, Response.failed, hrid, hstub, if_false]
    rfl

/-! ## The responder -/

theorem handle_request {p : Responder} (hpath : Path.check s.path = .ok ())
    (hfree : p.inbound.get? s.rid = none) :
    p.handle s.request = ([.schedule (s.task (p.nextToken + 1))],
      { p with
        nextToken := p.nextToken + 1
        inbound := p.inbound.insert s.rid ⟨p.nextToken + 1, .set, s.path⟩ }) := by
  have hnew : p.inbound.contains s.rid = false :=
    Bool.of_not_eq_true fun h => Table.get?_eq_none.mp hfree (Table.mem_keys.mpr h)
  have hopen : p.checkOpen s.request = .ok s.path := by
    simp only [Responder.checkOpen, request, hpath, hnew, Bool.false_eq_true, if_false]
  have hhandle : p.handle s.request = p.openStream s.request := rfl
  rw [hhandle, Responder.openStream, hopen]
  rfl

section
variable {σ : Type} [ValueTree σ] (now : Timestamp) (p : Responder) (t : Journal σ) (token : Nat)

/-- What the tree says when the value is written. -/
def outcome (s : SetCall) (now : Timestamp) (t : σ) : Outcome Unit :=
  (ValueTree.writeValue now t s.path s.value s.permit).1

theorem finish_writes (k : StreamKey) (resp : Response) :
    (p.finish t k resp).2.2.writes = t.writes := by
  unfold Responder.finish
  cases p.current? k <;> rfl

theorem finish_sends {τ : Type} [ValueTree τ] (t : τ) (k : StreamKey) (resp : Response) :
    (p.finish t k resp).1.filterMap Service.outgoing? =
      if (p.current? k).isSome then sendTo p.outlet (.response resp) else [] := by
  unfold Responder.finish
  cases p.current? k with
  | none => rfl
  | some c => exact Service.outgoing_sends _

/-- The task calls the tree, tells those who watch, and ends its stream with what came of it. -/
theorem run_task {τ : Type} [ValueTree τ] (t : τ) :
    let call := ValueTree.writeValue now t s.path s.value s.permit
    let told := p.onChanges call.2.1
    p.run now t (s.task token) =
      match s.answer? call.1 with
      | none => (told.1, told.2, call.2.2)
      | some resp =>
        let last := told.2.finish call.2.2 (s.stream token) resp
        (told.1 ++ last.1, last.2) := by
  simp only [task, Responder.run, Responder.runSet, Option.getD_some, Responder.finishCall]
  cases (ValueTree.writeValue now t s.path s.value s.permit).1 <;> rfl

/-- The tree is called once, whether or not the stream is still open. -/
theorem run_writes : (p.run now t (s.task token)).2.2.writes =
    t.writes ++ [⟨s.path, s.value, s.permit, s.outcome now t.tree⟩] := by
  rw [run_task]
  dsimp only
  split
  · rfl
  · exact finish_writes _ _ _ _

theorem run_sends {τ : Type} [ValueTree τ] (t : τ) :
    (p.run now t (s.task token)).1.filterMap Service.outgoing? =
      if (p.current? (s.stream token)).isSome then
        (s.answer? (s.outcome now t)).toList.flatMap fun resp => sendTo p.outlet (.response resp)
      else [] := by
  rw [run_task, outcome]
  dsimp only
  cases s.answer? (ValueTree.writeValue now t s.path s.value s.permit).1 with
  | none =>
    rw [Service.outgoing_onChanges]
    split <;> rfl
  | some resp =>
    rw [List.filterMap_append, Service.outgoing_onChanges, finish_sends]
    simp only [Option.toList_some, List.flatMap_cons, List.flatMap_nil, List.append_nil,
      List.nil_append]
    rfl

end

/-! ## On the way -/

/-- A request that arrives finds no stream of its number. -/
theorem arrives {σ : Type} [ValueTree σ] {c : Encoding} {t t' : σ} {d : Dialogue σ}
    (h : Dialogue.Reachable c t t' d) {up : List Message}
    (hup : d.up = .request s.request :: up) {p : Responder} (hp : d.server.responder = some p) :
    p.inbound.get? s.rid = none := by
  obtain ⟨q, r, hkept⟩ := h.kept
  obtain rfl : r = p := Option.some.inj (hkept.serves.responder.symm.trans hp)
  have hwhole : d.isWhole = true := by
    refine Bool.of_not_eq_false fun hbroken => ?_
    rw [(hkept.lost hbroken).1] at hup
    cases hup
  have hphase := (hkept.sound hwhole).phase s.rid
  have hsignal : (Message.request s.request).signal? s.rid = some (.opens (.set, some s.path)) :=
    if_pos rfl
  simp only [Dialogue.lanes, hup, List.filterMap_cons, hsignal] at hphase
  exact Option.map_eq_none_iff.mp hphase.free_of_opens

/-! ## There and back -/

/-- The calls of a requester of which this one is the last. -/
def after (s : SetCall) (calls : List Requester.Call) : List Requester.Call :=
  calls ++ [.set s.path s.value s.permit s.handler]

/-- What becomes of a call that is granted after others, over a link of some settings. -/
structure Carried (s : SetCall) (calls : List Requester.Call) (c : LinkConfig)
    (codec : BodyCodec) : Prop where
  /-- One request is sent, on the connection that is bound. -/
  sent : ∃ link, (Requester.Run.ofCalls calls).requester.outlet = some ⟨link, true⟩ ∧
    ((Requester.Run.ofCalls calls).requester.set s.path s.value s.permit s.handler).2.1 =
      [.send ⟨link, .request s.request⟩]
  /-- Until it is closed it is the one that is open under its number. -/
  waits : ∀ more,
    (Requester.Run.ofCalls (s.after calls ++ more)).requester.pending.get? s.rid = none ∨
      (Requester.Run.ofCalls (s.after calls ++ more)).requester.pending.get? s.rid = some s.stub
  /-- It comes as it went. -/
  read : c.exchange codec (.request s.request) = [.ok (some (.message (.request s.request)))]
  /-- No stream of its number is open when it comes. -/
  free : ∀ {σ : Type} [ValueTree σ] {e : Encoding} {t t' : σ} {d : Dialogue σ},
    Dialogue.Reachable e t t' d → ∀ {up : List Message}, d.up = .request s.request :: up →
      ∀ p, d.server.responder = some p → p.inbound.get? s.rid = none
  /-- It opens one, and brings one task. -/
  taken : ∀ p : Responder, p.inbound.get? s.rid = none →
    ∃ p', p.handle s.request = ([.schedule (s.task (p.nextToken + 1))], p') ∧
      p'.current? (s.stream (p.nextToken + 1)) = some ⟨p.nextToken + 1, .set, s.path⟩
  /-- Whenever the task is run, it calls the tree once, with the path, the value and the
  permission of the request. -/
  written : ∀ {σ : Type} [ValueTree σ] (now : Timestamp) (p : Responder) (t : Journal σ)
    (token : Nat), (p.run now t (s.task token)).2.2.writes =
      t.writes ++ [⟨s.path, s.value, s.permit, s.outcome now t.tree⟩]
  /-- What came of it is sent if the stream is still open, and nothing else is. -/
  answered : ∀ {σ : Type} [ValueTree σ] (now : Timestamp) (p : Responder) (t : σ) (token : Nat),
    (p.run now t (s.task token)).1.filterMap Service.outgoing? =
      if (p.current? (s.stream token)).isSome then
        (s.answer? (s.outcome now t)).toList.flatMap fun resp => sendTo p.outlet (.response resp)
      else []
  /-- This comes as it went, too. -/
  replied : ∀ {o : Outcome Unit} {resp : Response}, s.answer? o = some resp →
    ∀ {c' : LinkConfig} {codec' : BodyCodec}, Message.Fits c' codec' (.response resp) →
      c'.exchange codec' (.response resp) = [.ok (some (.message (.response resp)))]
  /-- The handler is told of what came of the call, and of nothing else. -/
  told : ∀ {o : Outcome Unit} {resp : Response}, s.answer? o = some resp →
    ∀ (now : Timestamp) (q : Requester), q.pending.get? s.rid = some s.stub →
      q.handleResponse now resp =
        ((s.news o).map .tell, { q with pending := (q.pending.remove s.rid).2 })

theorem ofCalls_after (s : SetCall) (calls : List Requester.Call) :
    Requester.Run.ofCalls (s.after calls) =
      (Requester.Run.ofCalls calls).after (.set s.path s.value s.permit s.handler) :=
  List.foldl_append

theorem read_request (hvalue : s.value.Ordered) (hnull : s.value ≠ .null) :
    (Message.request s.request).read = .request s.request := by
  have hordered : (Message.request s.request).Ordered :=
    ⟨nofun, fun v hv => Option.some.inj hv ▸ hvalue⟩
  have hpresent := (hordered.2 s.value rfl).present_eq hnull
  simp only [Message.read, Request.read, request, Option.bind_none, Option.bind_some, hpresent]

theorem read_answer {o : Outcome Unit} {resp : Response} (h : s.answer? o = some resp) :
    (Message.response resp).read = .response resp := by
  cases o with
  | died => cases h
  | answered | refused =>
    obtain rfl := Option.some.inj h
    rfl

theorem rid_ne (calls : List Requester.Call)
    (h : ((Requester.Run.ofCalls calls).requester.set s.path s.value s.permit s.handler).1 =
      .ok s.rid) : s.rid ≠ Response.updateRid ∧
        s.rid < (Requester.Run.ofCalls (s.after calls)).requester.pending.nextRid := by
  have hkept := Requester.Run.kept_ofCalls (s.after calls)
  have hmem : (s.rid, s.handler) ∈ (Requester.Run.ofCalls (s.after calls)).granted := by
    rw [ofCalls_after]
    refine List.mem_append_right _ ?_
    simp only [Requester.perform, Requester.asked, h, Requester.grants, List.mem_singleton]
  obtain ⟨hpos, hlt⟩ := hkept.numbers _ hmem
  exact ⟨Nat.ne_of_gt hpos, hlt⟩

/-- A value that is not null is carried to the tree, and what came of it to the handler. -/
theorem carries {s : SetCall} {c : LinkConfig} {codec : BodyCodec} (calls : List Requester.Call)
    (hgranted : ((Requester.Run.ofCalls calls).requester.set s.path s.value s.permit s.handler).1 =
      .ok s.rid)
    (hpath : Path.check s.path = .ok ()) (hvalue : s.value.Ordered) (hnull : s.value ≠ .null)
    (hfits : Message.Fits c codec (.request s.request)) : s.Carried calls c codec := by
  obtain ⟨link, houtlet, hsent, hstub⟩ := granted hgranted
  obtain ⟨hrid, hused⟩ := rid_ne calls hgranted
  exact {
    sent := ⟨link, houtlet, hsent⟩
    waits := fun more => by
      have hkept := (Requester.Run.kept_ofCalls (s.after calls)).stub_keeps hused more
      rw [Requester.Run.ofCalls, List.foldl_append]
      refine hkept.imp_right fun hsame => hsame.trans ?_
      rw [ofCalls_after]
      exact hstub
    read := (LinkConfig.exchange_reads hfits).trans (by rw [read_request hvalue hnull])
    free := fun h _ hup _ hp => arrives h hup hp
    taken := fun p hfree => ⟨_, handle_request hpath hfree, by
      rw [Responder.current?_eq_some]
      exact ⟨(Table.get?_insert _ _ _ _).trans (if_pos rfl), rfl⟩⟩
    written := fun now p t token => run_writes now p t token
    answered := fun now p t token => run_sends now p token t
    replied := fun hresp _ _ hfits' =>
      (LinkConfig.exchange_reads hfits').trans (by rw [read_answer hresp])
    told := fun hresp now q hstub' => handleResponse_answer now hresp hrid hstub' }

/-! ## Two values -/

/-- The first call on a connection. -/
def first (v : Value) : SetCall := ⟨1, "/a", v, .write, some "caller"⟩

/-- Whether a document is that of the call, with a value as it should be. -/
def isFirst (isValue : Value → Bool) : Option Value → Bool
  | some (.obj [(a, .str method), (b, .str path), (c, .str permit), (d, .num (.nat 1)), (e, v)]) =>
    isValue v && [a, method, b, path, c, permit, d, e] ==
      ["method", "set", "path", "/a", "permit", "write", "rid", "value"]
  | _ => false

theorem eq_of_isFirst {isValue : Value → Bool} {x : Option Value} (h : isFirst isValue x = true) :
    ∃ v, isValue v = true ∧ x = some (.obj [("method", .str "set"), ("path", .str "/a"),
      ("permit", .str "write"), ("rid", .num (.nat 1)), ("value", v)]) := by
  unfold isFirst at h
  split at h
  · rename_i a method b path c permit d e v
    simp only [Bool.and_eq_true, beq_iff_eq, List.cons.injEq] at h
    obtain ⟨hv, rfl, rfl, rfl, rfl, rfl, rfl, rfl, rfl, -⟩ := h
    exact ⟨v, hv, rfl⟩
  · cases h

theorem first_words (v : Value) : (Envelope.ofMessage (.request (first v).request)).InWords :=
  ⟨fun n hn => Option.some.inj hn ▸ (show 1 < wordBound by decide), nofun, nofun⟩

theorem first_null_fits : Message.Fits {} .json (.request (first .null).request) where
  reads := by
    have hread : isFirst Value.isNull
        (Envelope.shape.read? (Message.request (first .null).request).line.trim) = true := by
      decide +kernel
    obtain ⟨v, hv, hdocument⟩ := eq_of_isFirst hread
    refine ⟨first_words .null, hdocument.trans ?_⟩
    cases v with
    | null => rfl
    | bool | num | str | arr | obj => cases hv
  length := by decide +kernel

def isTrue : Value → Bool
  | .bool b => b
  | _ => false

theorem first_true_fits : Message.Fits {} .json (.request (first (.bool true)).request) where
  reads := by
    have hread : isFirst isTrue
        (Envelope.shape.read? (Message.request (first (.bool true)).request).line.trim) = true := by
      decide +kernel
    obtain ⟨v, hv, hdocument⟩ := eq_of_isFirst hread
    refine ⟨first_words (.bool true), hdocument.trans ?_⟩
    cases v with
    | bool b =>
      obtain rfl : b = true := hv
      rfl
    | null | num | str | arr | obj => cases hv
  length := by decide +kernel

/-- A flag is written as it was given, and the caller is told so. -/
theorem flag_carries :
    ((Requester.Run.ofCalls [.connect 0]).requester.set "/a" (.bool true) .write
      (some "caller")).1 = .ok 1 ∧
    Path.check "/a" = .ok () ∧ (Value.bool true).Ordered ∧ Value.bool true ≠ .null ∧
    Message.Fits {} .json (.request (first (.bool true)).request) ∧
    (first (.bool true)).Carried [.connect 0] {} .json :=
  ⟨rfl, by decide, .bool true, nofun, first_true_fits,
    carries [.connect 0] rfl (by decide) (.bool true) nofun first_true_fits⟩

/-- What a responder does with the request whose value was null, as it comes. -/
def nulled : Responder.Effects × Responder :=
  ({} : Responder).handle { (first .null).request with value := none }

/-- Null does not come, nothing is written, and the caller is told that there was no value. -/
theorem null_lost :
    ((Requester.Run.ofCalls [.connect 0]).requester.set "/a" .null .write (some "caller")).1 =
      .ok 1 ∧
    Path.check "/a" = .ok () ∧ Value.null.Ordered ∧
    Message.Fits {} .json (.request (first .null).request) ∧
    LinkConfig.exchange {} .json (.request (first .null).request) =
      [.ok (some (.message (.request { (first .null).request with value := none })))] ∧
    nulled.1 = [.schedule (.set ⟨1, 1⟩ "/a" none (some .write))] ∧
    (nulled.2.run Dialogue.midday (⟨{}, []⟩ : Journal (MemoryTree Binding))
      (.set ⟨1, 1⟩ "/a" none (some .write))).2.2.writes = [] :=
  ⟨rfl, by decide, .null, first_null_fits, LinkConfig.exchange_reads first_null_fits, rfl, rfl⟩

end SetCall
end PeerLink
