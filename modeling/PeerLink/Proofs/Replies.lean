import PeerLink.Responder
import PeerLink.Proofs.RegistrySteps

/-! # Replies of a responder

A worker calls the tree, tells those who watch what has changed, and answers on its stream. It may
take its time between the call and the answer.

* `Registry.Tidings`: a registry sends values and nothing else.
* `ResponderTask.call`: what the tree says; `Responder.give`: the answer that is made of it.
* `Responder.run_call`: a task that is run whole is a call and its answer.
* `Responder.Given`: what an answer does to the streams.
-/

namespace PeerLink
set_option autoImplicit false

variable {σ : Type} [ValueTree σ]

theorem message_of_mem_sendTo {outlet : Option Outlet} {m : Message} {o : Outgoing}
    (h : o ∈ sendTo outlet m) : o.message = m := by
  unfold sendTo Outlet.send at h
  split at h
  · split at h
    · rw [List.mem_singleton.mp h]
    · cases h
  · cases h

/-- A connection whose writer is gone keeps its number. -/
theorem Outlet.lose_link (outlet : Option Outlet) (link : Nat) :
    (outlet.map (·.lose link)).map (·.link) = outlet.map (·.link) := by
  rw [Option.map_map]
  refine Option.map_congr fun o _ => ?_
  simp only [Function.comp_apply, Outlet.lose]
  split <;> rfl

/-! ## What a registry sends -/

namespace Registry
variable {r : Registry} {es es' : Effects}

/-- All that is sent are values for subscriptions. -/
def Tidings (es : Effects) : Prop :=
  ∀ o, .send o ∈ es → ∃ us, o.message = .response (.opened Response.updateRid us)

theorem Tidings.nil : Tidings [] := fun _ ho => absurd ho List.not_mem_nil

theorem Tidings.append (h : Tidings es) (h' : Tidings es') : Tidings (es ++ es') := by
  intro o ho
  exact (List.mem_append.mp ho).elim (h o) (h' o)

theorem Schedules.tidings {r' : Registry} (h : r.Schedules es r') : Tidings es := by
  intro o ho
  cases h.only _ ho

theorem onChanges_schedules : ∀ (ns : List (Notice Binding)) (r : Registry),
    r.Schedules (r.onChanges ns).1 (r.onChanges ns).2
  | [], r => .refl r
  | n :: ns, r => by
    have hone : r.Schedules (r.onChange n).1 (r.onChange n).2 := by
      unfold onChange
      split
      · exact .refl r
      · exact record_schedules _ _ _
    exact hone.trans (onChanges_schedules ns (r.onChange n).2)

theorem attach_tidings (r : Registry) (t : σ) (b : Binding) (watch : Nat)
    (initial : Option ValueUpdate) : Tidings (r.attach t b watch initial).1 := by
  unfold attach
  split
  · exact .nil
  · rename_i e _
    dsimp only
    split
    · exact (record_schedules b e _).tidings
    · exact .nil

theorem bind_tidings (now : Timestamp) (r : Registry) (t : σ) (p : SubscribePath) :
    Tidings (r.bind now t p).1 := by
  unfold bind
  split
  · exact .nil
  · dsimp only
    split
    · exact (onChanges_schedules _ _).tidings
    · exact (onChanges_schedules _ _).tidings.append (attach_tidings _ _ _ _ _)

theorem bindAll_tidings (now : Timestamp) : ∀ (ps : List SubscribePath) (r : Registry) (t : σ),
    Tidings (r.bindAll now t ps).1
  | [], _, _ => .nil
  | _ :: ps, _, _ => (bind_tidings now _ _ _).append (bindAll_tidings now ps _ _)

theorem applyAll_tidings (now : Timestamp) : ∀ (ops : List RegistryOp) (r : Registry) (t : σ),
    Tidings (r.applyAll now t ops).1
  | [], _, _ => .nil
  | .subscribe ps :: ops, _, _ =>
    (bindAll_tidings now ps _ _).append (applyAll_tidings now ops _ _)
  | .unsubscribe _ :: ops, _, _ => Tidings.nil.append (applyAll_tidings now ops _ _)

theorem flush_tidings (r : Registry) : Tidings r.flush.1 := by
  unfold flush
  dsimp only
  split
  · exact .nil
  · intro o ho
    obtain ⟨o', ho', he⟩ := List.mem_map.mp ho
    cases he
    exact ⟨_, message_of_mem_sendTo ho'⟩

theorem run_tidings (now : Timestamp) (r : Registry) (t : σ) (task : RegistryTask) :
    Tidings (r.run now t task).1 := by
  cases task with
  | drain => exact applyAll_tidings now _ _ _
  | flush => exact flush_tidings r

theorem enqueue_tidings (r : Registry) (op : RegistryOp) : Tidings (r.enqueue op).1 := by
  unfold enqueue
  cases r.draining with
  | true => exact .nil
  | false => exact fun o ho => nomatch List.mem_singleton.mp ho

end Registry

/-! ## Calls and answers -/

/-- An answer for the stream of its number, if the token is still that of the stream. -/
structure Reply where
  token : Nat
  response : Response

namespace Reply

def stream (a : Reply) : StreamKey := ⟨a.response.rid, a.token⟩

end Reply

/-- What a call is answered with; a worker that has died says nothing. -/
def Outcome.reply? {α : Type} (s : StreamKey) (answer : α → Response) : Outcome α → Option Reply
  | .answered x => some ⟨s.token, answer x⟩
  | .refused e => some ⟨s.token, .failed s.rid e⟩
  | .died => none

/-- What a worker has of the tree before it answers: the answer, the news, and the tree. -/
def ResponderTask.call (now : Timestamp) (t : σ) :
    ResponderTask → Option Reply × List (Notice Binding) × σ
  | .list s path =>
    ((ValueTree.listChildren t path).reply? s fun rows =>
      .opened s.rid (rows.map Responder.rowJson), [], t)
  | .invoke s path params =>
    let (outcome, notices, t) := ValueTree.invoke now t path params
    (outcome.reply? s fun rows => .closed s.rid rows, notices, t)
  | .set s _ none _ => (some ⟨s.token, .failed s.rid Responder.noValue⟩, [], t)
  | .set s path (some value) permit =>
    let (outcome, notices, t) := ValueTree.writeValue now t path value (permit.getD .write)
    (outcome.reply? s fun () => .closed s.rid, notices, t)
  | .reportClosed path method => (none, [], ValueTree.streamClosed t path method)
  | .registry _ => (none, [], t)

namespace Responder
variable {r : Responder}

/-- Answers on a stream, which is over if the response closes it. -/
def give (r : Responder) (t : σ) : Option Reply → Effects × Responder × σ
  | none => ([], r, t)
  | some a =>
    if a.response.isClosing then r.finish t a.stream a.response
    else (r.sendOpen a.stream a.response, r, t)

/-- What becomes of a call: those who watch are told, and then it is answered. -/
def conclude (r : Responder) (call : Option Reply × List (Notice Binding) × σ) :
    Effects × Responder × σ :=
  let (answer, notices, t) := call
  let (a, r) := r.onChanges notices
  let (b, r, t) := r.give t answer
  (a ++ b, r, t)

theorem finishCall_eq {α : Type} (r : Responder) (s : StreamKey) {answer : α → Response}
    (hrid : ∀ x, (answer x).rid = s.rid) (hlast : ∀ x, (answer x).isClosing = true)
    (call : Outcome α × List (Notice Binding) × σ) :
    r.finishCall s answer call = r.conclude (call.1.reply? s answer, call.2) := by
  obtain ⟨outcome, notices, t⟩ := call
  cases outcome with
  | answered x =>
    have hstream : (Reply.mk s.token (answer x)).stream = s := by rw [Reply.stream, hrid]
    simp only [finishCall, conclude, Outcome.reply?, give, hlast, if_true, hstream]
  | refused e => rfl
  | died => simp only [finishCall, conclude, Outcome.reply?, give, List.append_nil]

theorem run_call (now : Timestamp) (r : Responder) (t : σ) {task : ResponderTask}
    (htask : ∀ x, task ≠ .registry x) : r.run now t task = r.conclude (task.call now t) := by
  cases task with
  | list s path =>
    simp only [run, runList, ResponderTask.call]
    cases ValueTree.listChildren t path <;> rfl
  | invoke s path params =>
    exact r.finishCall_eq s (fun _ => rfl) (fun _ => rfl) (ValueTree.invoke now t path params)
  | set s path value permit =>
    cases value with
    | none => rfl
    | some value =>
      exact r.finishCall_eq s (fun _ => rfl) (fun _ => rfl)
        (ValueTree.writeValue now t path value (permit.getD .write))
  | reportClosed path method => rfl
  | registry x => exact absurd rfl (htask x)

/-! ## Requests that are accepted -/

theorem checkOpen_ok {req : Request} {path : String} (h : r.checkOpen req = .ok path) :
    req.path = some path ∧ Path.check path = .ok () ∧ r.inbound.get? req.rid = none := by
  unfold checkOpen at h
  split at h
  · cases h
  · rename_i path' hpath
    split at h
    · cases h
    · rename_i hcheck
      split at h
      · cases h
      · rename_i hnew
        obtain rfl := Except.ok.inj h
        exact ⟨hpath, hcheck, Table.get?_eq_none.mpr fun hm => hnew (Table.mem_keys.mp hm)⟩

/-! ## What an answer does -/

theorem current?_eq_some {s : StreamKey} {c : InboundContext} :
    r.current? s = some c ↔ r.inbound.get? s.rid = some c ∧ c.token = s.token := by
  simp [current?, Option.filter_eq_some_iff]

/-- What an answer does to the streams: nothing when its own is over, else it is sent. A last one
ends its stream, which is reported. -/
inductive Given (r : Responder) (t : σ) (a : Reply) : Effects → Responder → σ → Prop
  | stale (hstale : r.current? a.stream = none) : Given r t a [] r t
  | still {c : InboundContext} (hcurrent : r.current? a.stream = some c)
      (hopen : a.response.isClosing = false) : Given r t a (r.reply a.response) r t
  | last {c : InboundContext} (hcurrent : r.current? a.stream = some c)
      (hlast : a.response.isClosing = true) :
      Given r t a (r.reply a.response) { r with inbound := r.inbound.erase a.response.rid }
        (ValueTree.streamClosed t c.path c.method)

theorem give_given (r : Responder) (t : σ) (a : Reply) :
    Given r t a (r.give t (some a)).1 (r.give t (some a)).2.1 (r.give t (some a)).2.2 := by
  simp only [give, finish, sendOpen]
  cases hcurrent : r.current? a.stream with
  | none =>
    split
    · exact .stale hcurrent
    · exact .stale hcurrent
  | some c =>
    cases hlast : a.response.isClosing with
    | true => exact .last hcurrent hlast
    | false => exact .still hcurrent hlast

end Responder
end PeerLink
