import PeerLink.Proofs.Service

/-! # Runs of a service

* `Service.after_step`: each move is one step of the book.
* `Service.serves_fairly`: what a responder owes, over any run.
-/

namespace PeerLink
set_option autoImplicit false

open Responder (sends ofRegistry)

namespace Service
variable {σ : Type}

/-! ## What is scheduled and sent -/

theorem outgoing_sends (os : List Outgoing) : (sends os).filterMap outgoing? = os := by
  rw [sends, List.filterMap_map]
  exact List.filterMap_some

theorem scheduled_sends (os : List Outgoing) : (sends os).filterMap scheduled? = [] := by
  rw [sends, List.filterMap_map]
  exact List.filterMap_eq_nil_iff.mpr fun _ _ => rfl

/-- A registry schedules tasks that concern no stream. -/
theorem scheduled_ofRegistry (es : Registry.Effects) :
    ∀ task ∈ (ofRegistry es).filterMap scheduled?, task.duty? = none ∧ task.report? = none := by
  intro task htask
  obtain ⟨e, he, htask⟩ := List.mem_filterMap.mp htask
  obtain ⟨e0, -, rfl⟩ := List.mem_map.mp he
  cases e0 with
  | send o => cases htask
  | schedule t =>
    obtain rfl := Option.some.inj htask
    exact ⟨rfl, rfl⟩

/-- Nothing is sent when those who watch are told. -/
theorem outgoing_onChanges (r : Responder) (ns : List (Notice Binding)) :
    (r.onChanges ns).1.filterMap outgoing? = [] := by
  refine List.filterMap_eq_nil_iff.mpr fun e he => ?_
  obtain ⟨e0, he0, rfl⟩ := List.mem_map.mp he
  rw [(Registry.onChanges_schedules ns r.registry).only e0 he0]
  rfl

theorem filterMap_scheduled {es : Responder.Effects}
    (htasks : ∀ task ∈ es.filterMap scheduled?, task.duty? = none ∧ task.report? = none)
    (tasks : List ResponderTask) :
    (tasks ++ es.filterMap scheduled?).filterMap ResponderTask.duty? =
        tasks.filterMap ResponderTask.duty? ∧
      (tasks ++ es.filterMap scheduled?).filterMap ResponderTask.report? =
        tasks.filterMap ResponderTask.report? := by
  have hduties : (es.filterMap scheduled?).filterMap ResponderTask.duty? = [] :=
    List.filterMap_eq_nil_iff.mpr fun task htask => (htasks task htask).1
  have hreports : (es.filterMap scheduled?).filterMap ResponderTask.report? = [] :=
    List.filterMap_eq_nil_iff.mpr fun task htask => (htasks task htask).2
  rw [List.filterMap_append, List.filterMap_append, hduties, hreports, List.append_nil,
    List.append_nil]
  exact ⟨rfl, rfl⟩

/-- Acts that concern no stream. -/
theorem book_acts {s : Service σ} {es : Responder.Effects} {r : Responder}
    (hinbound : r.inbound = s.responder.inbound) (htoken : r.nextToken = s.responder.nextToken)
    (houtlet : r.outlet = s.responder.outlet)
    (htasks : ∀ task ∈ es.filterMap scheduled?, task.duty? = none ∧ task.report? = none) :
    (s.acts es r).book = s.book := by
  obtain ⟨hduties, hreports⟩ := filterMap_scheduled htasks s.tasks
  simp only [book, reports, duties, acts, hinbound, htoken, houtlet, hduties, hreports]

theorem book_acts_sends (s : Service σ) (os : List Outgoing) :
    (s.acts (sends os) s.responder).book = s.book := by
  refine book_acts rfl rfl rfl fun task htask => ?_
  rw [scheduled_sends] at htask
  cases htask

theorem rests_of_eq {b b' : Book} (h : b' = b) : Book.Step b b' :=
  h ▸ .rests (.refl _) (.refl _)

/-! ## Connections -/

variable {s : Service σ}

theorem connect_step (s : Service σ) : Book.Step s.book s.connect.book := by
  have hbook : s.connect.book = s.book.connect := by
    simp only [book, Book.connect, connect, reports, duties, Option.isSome_map]
    rfl
  rw [hbook]
  exact .connects

section
variable [ValueTree σ]

theorem loseWriter_step (s : Service σ) (link : Nat) :
    Book.Step s.book (s.after (.loseWriter link)).book :=
  rests_of_eq (congrArg (fun bound => { s.book with bound })
    (Outlet.lose_link s.responder.outlet link))

theorem disconnect_step (s : Service σ) : Book.Step s.book (s.after .disconnect).book := by
  have hreports : (s.tree.closed ++ s.responder.inbound.values.map (·.report) ++
      s.tasks.filterMap ResponderTask.report?).Perm
      (s.reports ++ s.responder.inbound.values.map (·.report)) := by
    rw [reports, List.append_assoc, List.append_assoc]
    exact List.perm_append_comm.append_left _
  have hbook : (s.after .disconnect).book =
      { s.book with
        bound := none, inbound := {}
        reports := s.tree.closed ++ s.responder.inbound.values.map (·.report) ++
          s.tasks.filterMap ResponderTask.report? } := by
    simp only [after, Ledger.disconnect_eq, book, reports, duties]
    rfl
  rw [hbook]
  exact .disconnects hreports

end

/-! ## Requests -/

theorem closeInbound_step (s : Service σ) (req : Request) :
    Book.Step s.book (s.acts (s.responder.closeInbound req.rid).1
      (s.responder.closeInbound req.rid).2).book := by
  unfold Responder.closeInbound
  cases hopen : s.responder.inbound.get? req.rid with
  | none => exact rests_of_eq (s.book_acts_sends [])
  | some c =>
    have hbook : (s.acts [.schedule (.reportClosed c.path c.method)]
        { s.responder with inbound := s.responder.inbound.erase req.rid }).book =
        { s.book with
          inbound := s.book.inbound.erase req.rid, reports := s.book.reports ++ [c.report] } := by
      simp only [book, acts, reports, duties, List.filterMap_append, List.append_assoc]
      simp [scheduled?, ResponderTask.duty?, ResponderTask.report?, InboundContext.report]
    dsimp only
    rw [hbook]
    exact .leaves hopen (.refl _)

theorem acts_sends (s : Service σ) (os : List Outgoing) :
    s.acts (sends os) s.responder = { s with sent := s.sent ++ os } := by
  rw [acts, scheduled_sends, outgoing_sends, List.append_nil]

theorem acts_reply (s : Service σ) {outlet : Outlet} (houtlet : s.responder.outlet = some outlet)
    (resp : Response) : s.acts (s.responder.reply resp) s.responder =
      { s with sent := s.sent ++ outlet.send (.response resp) } := by
  rw [Responder.reply, acts_sends, houtlet]
  rfl

theorem take_of_none {req : Request} {outlet : Outlet} (houtlet : s.responder.outlet = some outlet)
    (hnone : acceptance? s.responder outlet.link req = none) :
    s.take req = s.acts (s.responder.handle req).1 (s.responder.handle req).2 := by
  simp only [take, houtlet, hnone, Option.toList_none, List.append_nil]
  rfl

theorem applyBatch_step (s : Service σ) (rid : Nat) (op : RegistryOp) :
    Book.Step s.book
      (s.acts (s.responder.applyBatch rid op).1 (s.responder.applyBatch rid op).2).book := by
  refine rests_of_eq (book_acts rfl rfl rfl fun task htask => ?_)
  simp only [Responder.applyBatch, List.filterMap_append, Responder.reply, scheduled_sends,
    List.append_nil] at htask
  exact scheduled_ofRegistry _ task htask

theorem taskOf?_duty {req : Request} (stream : StreamKey) (path : String)
    (hopens : req.method.opens = true) : ∃ task, Responder.taskOf? stream path req = some task ∧
      task.duty? = some (.call stream req.method) ∧ task.report? = none := by
  unfold Responder.taskOf?
  cases hmethod : req.method with
  | list | invoke | set => exact ⟨_, rfl, rfl, rfl⟩
  | subscribe | unsubscribe | close | remove =>
    rw [hmethod] at hopens
    cases hopens

theorem handle_opens (r : Responder) {req : Request} (hopens : req.method.opens = true) :
    r.handle req = r.openStream req := by
  unfold Responder.handle
  cases hmethod : req.method with
  | list | invoke | set => rfl
  | subscribe | unsubscribe | close | remove =>
    rw [hmethod] at hopens
    cases hopens

theorem take_refused {req : Request} {outlet : Outlet} {e : LinkError}
    (houtlet : s.responder.outlet = some outlet) (hopens : req.method.opens = true)
    (hcheck : s.responder.checkOpen req = .error e) :
    s.take req = s.acts (s.responder.reject req.rid e) s.responder := by
  have hnone : acceptance? s.responder outlet.link req = none := by
    rw [acceptance?, if_pos hopens, hcheck]
    rfl
  rw [take_of_none houtlet hnone, handle_opens _ hopens]
  simp only [Responder.openStream, hcheck]

theorem openStream_step {req : Request} {outlet : Outlet} {path : String}
    (houtlet : s.responder.outlet = some outlet) (hcheck : s.responder.checkOpen req = .ok path)
    (hopens : req.method.opens = true) : Book.Step s.book (s.take req).book := by
  obtain ⟨task, htask, hduty, hreport⟩ :=
    taskOf?_duty ⟨req.rid, s.responder.nextToken + 1⟩ path hopens
  have htake : s.take req =
      { s.acts [.schedule task]
          { s.responder with
            nextToken := s.responder.nextToken + 1
            inbound := s.responder.inbound.insert req.rid
              ⟨s.responder.nextToken + 1, req.method, path⟩ } with
        accepted := s.accepted ++
          [⟨⟨req.rid, s.responder.nextToken + 1⟩, req.method, path, outlet.link⟩] } := by
    simp only [take, houtlet, handle_opens _ hopens, acceptance?, if_pos hopens,
      Responder.openStream, hcheck, htask]
    rfl
  have hbound : s.book.bound = some outlet.link := by
    rw [book, houtlet]
    rfl
  have hreports : (s.take req).reports = s.reports := by
    rw [htake]
    simp only [reports, acts, List.filterMap_append, List.filterMap_cons, scheduled?, hreport,
      List.filterMap_nil, List.append_nil]
  have hduties : (s.take req).duties.Perm
      (s.duties ++ [.call ⟨req.rid, s.responder.nextToken + 1⟩ req.method]) := by
    rw [htake]
    simp only [duties, acts, List.filterMap_append, List.filterMap_cons, scheduled?, hduty,
      List.filterMap_nil, List.append_assoc]
    exact List.perm_append_comm.append_left _
  have hbook : (s.take req).book =
      { s.book.accept req.rid req.method path outlet.link with duties := (s.take req).duties } := by
    simp only [book, Book.accept, hreports]
    rw [htake]
    rfl
  rw [hbook]
  exact .accepts hbound (Responder.checkOpen_ok hcheck).2.2 hduties

theorem take_step (s : Service σ) (req : Request) : Book.Step s.book (s.take req).book := by
  cases houtlet : s.responder.outlet with
  | none => exact rests_of_eq (by simp only [take, houtlet])
  | some outlet =>
    cases hopens : req.method.opens with
    | true =>
      cases hcheck : s.responder.checkOpen req with
      | ok path => exact openStream_step houtlet hcheck hopens
      | error e =>
        rw [take_refused houtlet hopens hcheck]
        exact rests_of_eq (s.book_acts_sends _)
    | false =>
      have hnone : acceptance? s.responder outlet.link req = none := by
        rw [acceptance?, hopens]
        rfl
      rw [take_of_none houtlet hnone, Responder.handle]
      cases hmethod : req.method with
      | list | invoke | set =>
        rw [hmethod] at hopens
        cases hopens
      | close => exact s.closeInbound_step req
      | subscribe | unsubscribe => exact s.applyBatch_step _ _
      | remove => exact rests_of_eq (s.book_acts_sends _)

theorem checkOpen_rejects {r : Responder} {req : Request}
    (h : req.path = none ∨ (∃ path, req.path = some path ∧ Path.valid path = false) ∨
      (r.inbound.get? req.rid).isSome = true) : ∃ e, r.checkOpen req = .error e := by
  cases hcheck : r.checkOpen req with
  | error e => exact ⟨e, rfl⟩
  | ok path =>
    obtain ⟨hpath, hvalid, hnew⟩ := Responder.checkOpen_ok hcheck
    rcases h with hnone | ⟨path', hpath', hinvalid⟩ | hopen
    · cases hnone.symm.trans hpath
    · obtain rfl := Option.some.inj (hpath.symm.trans hpath')
      cases hinvalid.symm.trans (Path.check_eq_ok.mp hvalid)
    · rw [hnew] at hopen
      cases hopen

theorem take_rejected {req : Request} {outlet : Outlet}
    (houtlet : s.responder.outlet = some outlet) (h : Rejects s.responder req) :
    ∃ e, s.take req =
      { s with sent := s.sent ++ outlet.send (.response (.failed req.rid e)) } := by
  rcases h with hmethod | ⟨hopens, hreject⟩
  · have hnone : acceptance? s.responder outlet.link req = none := by
      rw [acceptance?, hmethod]
      rfl
    rw [take_of_none houtlet hnone, Responder.handle, hmethod]
    exact ⟨_, acts_reply s houtlet _⟩
  · obtain ⟨e, hcheck⟩ := checkOpen_rejects hreject
    rw [take_refused houtlet hopens hcheck]
    exact ⟨e, acts_reply s houtlet _⟩

theorem refuse_step (s : Service σ) (rid : Nat) (e : LinkError) :
    Book.Step s.book (s.refuse rid e).book := by
  unfold refuse
  split
  · exact rests_of_eq rfl
  · exact rests_of_eq (s.book_acts_sends _)

theorem onChanges_book (s : Service σ) (ns : List (Notice Binding)) :
    (s.acts (s.responder.onChanges ns).1 (s.responder.onChanges ns).2).book = s.book :=
  book_acts rfl rfl rfl (scheduled_ofRegistry _)

theorem change_step (s : Service σ) (act : σ → List (Notice Binding) × σ) :
    Book.Step s.book (s.change act).book :=
  rests_of_eq (s.onChanges_book _)

/-! ## Workers -/

theorem perm_taken {α : Type} {xs : List α} {place : Nat} {x : α} (h : xs[place]? = some x) :
    xs.Perm (x :: xs.eraseIdx place) := by
  obtain ⟨hlt, rfl⟩ := List.getElem?_eq_some_iff.mp h
  exact (List.getElem_cons_eraseIdx_perm hlt).symm

theorem filterMap_taken {α β : Type} {xs : List α} {place : Nat} {x : α} {f : α → Option β} {y : β}
    (h : xs[place]? = some x) (hf : f x = some y) :
    (xs.filterMap f).Perm (y :: (xs.eraseIdx place).filterMap f) := by
  have hperm := (perm_taken h).filterMap f
  rw [List.filterMap_cons_some hf] at hperm
  exact hperm

theorem filterMap_passed {α β : Type} {xs : List α} {place : Nat} {x : α} {f : α → Option β}
    (h : xs[place]? = some x) (hf : f x = none) :
    (xs.eraseIdx place).filterMap f = xs.filterMap f := by
  obtain ⟨hlt, hx⟩ := List.getElem?_eq_some_iff.mp h
  rw [List.eraseIdx_eq_take_drop_succ, List.filterMap_append,
    ← List.filterMap_cons_none (l := xs.drop (place + 1)) hf, ← hx,
    ← List.drop_eq_getElem_cons hlt, ← List.filterMap_append, List.take_append_drop]

/-- What the tree says fits the request that the task was made for. -/
theorem reply?_answers {α : Type} {stream : StreamKey} {method : Method} {answer : α → Response}
    (hanswer : ∀ y, ∃ rows, answer y =
      if method = .list then .opened stream.rid rows else .closed stream.rid rows)
    {outcome : Outcome α} {x : Reply} (hx : outcome.reply? stream answer = some x) :
    x.stream = stream ∧
      ∀ a : Accepted, a.stream = stream → a.method = method → a.Answers x.response := by
  cases outcome with
  | answered y =>
    obtain rfl := Option.some.inj hx
    obtain ⟨rows, hrows⟩ := hanswer y
    refine ⟨?_, fun a hstream hmethod => .inr ⟨rows, ?_⟩⟩
    · rw [Reply.stream, hrows]
      split <;> rfl
    · rw [hstream, hmethod]
      exact hrows
  | refused e =>
    obtain rfl := Option.some.inj hx
    refine ⟨rfl, fun a hstream _ => .inl ⟨e, ?_⟩⟩
    rw [hstream]
  | died => cases hx

/-- There is one message while there is a writer. -/
theorem sends_sentWith (s : Service σ) (x : Reply) : s.book.Sends x (s.sentWith x) := by
  rw [sentWith]
  cases houtlet : s.responder.outlet with
  | none => exact .inl rfl
  | some outlet =>
    have hbound : s.book.bound = some outlet.link := by
      rw [book, houtlet]
      rfl
    rw [sendTo, Outlet.send]
    split
    · exact .inr ⟨_, hbound, rfl⟩
    · exact .inl rfl

theorem duties_taken {place : Nat} {x : Reply} (hx : s.answers[place]? = some x) :
    s.book.duties.Perm (.answer x :: (s.withoutAnswer place).duties) := by
  have hanswers := (perm_taken hx).map Duty.answer
  exact (hanswers.append_left _).trans List.perm_middle

structure Kept (s : Service σ) : Prop where
  sound : s.book.Sound
  sent : (s.replies.map (·.outgoing)).Sublist s.sent

theorem Kept.start (t : σ) : (start t).Kept := ⟨.start, .refl _⟩

theorem outgoing_map (stream : StreamKey) (os : List Outgoing) :
    (os.map fun o => SentReply.mk stream o).map (·.outgoing) = os := by
  rw [List.map_map]
  exact List.map_id os

section
variable [ValueTree σ]

theorem call_answers {now : Timestamp} {t : Ledger σ} {task : ResponderTask} {stream : StreamKey}
    {method : Method} {x : Reply} (hduty : task.duty? = some (.call stream method))
    (hx : (task.call now t).1 = some x) : x.stream = stream ∧
      ∀ a : Accepted, a.stream = stream → a.method = method → a.Answers x.response := by
  cases task with
  | list s path =>
    obtain ⟨rfl, rfl⟩ := Duty.call.inj (Option.some.inj hduty)
    exact reply?_answers (fun rows => ⟨_, rfl⟩) hx
  | invoke s path params =>
    obtain ⟨rfl, rfl⟩ := Duty.call.inj (Option.some.inj hduty)
    exact reply?_answers (fun rows => ⟨rows, rfl⟩) hx
  | set s path value permit =>
    obtain ⟨rfl, rfl⟩ := Duty.call.inj (Option.some.inj hduty)
    cases value with
    | none =>
      obtain rfl := Option.some.inj hx
      refine ⟨rfl, fun a hstream _ => .inl ⟨Responder.noValue, ?_⟩⟩
      rw [hstream]
    | some value => exact reply?_answers (fun _ => ⟨[], rfl⟩) hx
  | reportClosed | registry => cases hduty

theorem call_eq {task : ResponderTask} (now : Timestamp) (s : Service σ)
    (htask : ∀ x, task ≠ .registry x) : s.call now task =
      { s.acts (s.responder.onChanges (task.call now s.tree).2.1).1
          (s.responder.onChanges (task.call now s.tree).2.1).2 with
        tree := (task.call now s.tree).2.2
        answers := s.answers ++ (task.call now s.tree).1.toList } := by
  cases task with
  | registry x => exact absurd rfl (htask x)
  | list | invoke | set | reportClosed => rfl

theorem call_book {task : ResponderTask} (now : Timestamp) (s : Service σ)
    (htask : ∀ x, task ≠ .registry x) : (s.call now task).book =
      { s.book with
        reports := s.tree.closed ++ task.report?.toList ++ s.tasks.filterMap ResponderTask.report?
        duties := s.duties ++ (task.call now s.tree).1.toList.map .answer } := by
  obtain ⟨hduties, hreports⟩ := filterMap_scheduled
    (scheduled_ofRegistry (s.responder.registry.onChanges (task.call now s.tree).2.1).1) s.tasks
  have hclosed : (task.call now s.tree).2.2.closed = s.tree.closed ++ task.report?.toList := by
    rw [Ledger.call_eq]
  rw [call_eq now s htask]
  simp only [book, reports, duties, acts, hclosed, Responder.onChanges, hduties, hreports,
    List.map_append, List.append_assoc]

theorem call_registry_step {place : Nat} {x : RegistryTask} (now : Timestamp)
    (htask : s.tasks[place]? = some (.registry x)) :
    Book.Step s.book ({ s with tasks := s.tasks.eraseIdx place }.call now (.registry x)).book := by
  obtain ⟨hduties, hreports⟩ := filterMap_scheduled
    (scheduled_ofRegistry (s.responder.registry.run now s.tree x).1) (s.tasks.eraseIdx place)
  have hclosed : (s.responder.registry.run now s.tree x).2.2.closed = s.tree.closed := by
    rw [Ledger.run_registry]
    rfl
  have hduties' := filterMap_passed htask (show ResponderTask.duty? (.registry x) = none from rfl)
  have hreports' :=
    filterMap_passed htask (show ResponderTask.report? (.registry x) = none from rfl)
  refine rests_of_eq ?_
  simp only [book, reports, duties, acts, call, Responder.run, hclosed, hduties, hreports,
    hduties', hreports']

theorem call_report_step {place : Nat} {path : String} {method : Method} (now : Timestamp)
    (htask : s.tasks[place]? = some (.reportClosed path method)) : Book.Step s.book
      ({ s with tasks := s.tasks.eraseIdx place }.call now (.reportClosed path method)).book := by
  have hregistry : ∀ x, ResponderTask.reportClosed path method ≠ .registry x := nofun
  have hreport : ResponderTask.report? (.reportClosed path method) = some (path, method) := rfl
  have hduty : ResponderTask.duty? (.reportClosed path method) = none := rfl
  rw [call_book now _ hregistry]
  refine .rests ?_ (.of_eq ?_)
  · rw [List.append_assoc]
    exact (filterMap_taken htask hreport).symm.append_left _
  · show duties _ ++ [] = s.duties
    rw [List.append_nil, duties, duties, filterMap_passed htask hduty]

theorem call_stream_step {place : Nat} {task : ResponderTask} {stream : StreamKey}
    {method : Method} (now : Timestamp) (htask : s.tasks[place]? = some task)
    (hduty : task.duty? = some (.call stream method)) :
    Book.Step s.book ({ s with tasks := s.tasks.eraseIdx place }.call now task).book := by
  have hregistry : ∀ x, task ≠ .registry x := by
    rintro x rfl
    cases hduty
  have hreport : task.report? = none := by
    cases task with
    | reportClosed path method => cases hduty
    | list | invoke | set | registry => rfl
  have hduties : s.book.duties.Perm
      (.call stream method :: ({ s with tasks := s.tasks.eraseIdx place } : Service σ).duties) :=
    (filterMap_taken htask hduty).append_right _
  have hbook := call_book now { s with tasks := s.tasks.eraseIdx place } hregistry
  simp only [hreport, Option.toList_none, List.append_nil, filterMap_passed htask hreport] at hbook
  rw [hbook]
  cases hx : (task.call now s.tree).1 with
  | none =>
    simp only [Option.toList_none, List.map_nil, List.append_nil]
    exact .dies hduties
  | some x =>
    obtain ⟨hstream, hfits⟩ := call_answers hduty hx
    exact .calls hstream hfits hduties (List.perm_append_singleton _ _)

theorem call_step {place : Nat} {task : ResponderTask} (now : Timestamp)
    (htask : s.tasks[place]? = some task) :
    Book.Step s.book ({ s with tasks := s.tasks.eraseIdx place }.call now task).book := by
  cases task with
  | list | invoke | set => exact call_stream_step now htask rfl
  | reportClosed path method => exact call_report_step now htask
  | registry x => exact call_registry_step now htask

/-- A worker whose stream is over says nothing, and leaves all streams as they are. -/
theorem answer_stale {x : Reply} (hstale : s.responder.current? x.stream = none) :
    s.answer x = s := by
  have hgive : s.responder.give s.tree (some x) = ([], s.responder, s.tree) := by
    simp only [Responder.give, Responder.finish, Responder.sendOpen, hstale, Option.isSome_none,
      Bool.false_eq_true, if_false, ite_self]
  simp only [answer, hgive, acts, List.filterMap_nil, List.append_nil, List.map_nil]

theorem answer_still {x : Reply} {c : InboundContext}
    (hcurrent : s.responder.current? x.stream = some c) (hopen : x.response.isClosing = false) :
    (s.answer x).book = { s.book with replies := s.replies ++ s.sentWith x } := by
  have hgive : s.responder.give s.tree (some x) =
      (s.responder.reply x.response, s.responder, s.tree) := by
    simp only [Responder.give, Responder.sendOpen, hcurrent, hopen, Option.isSome_some,
      Bool.false_eq_true, if_true, if_false]
  simp only [answer, hgive, book, reports, duties, acts, Responder.reply, scheduled_sends,
    outgoing_sends, List.append_nil, sentWith]

theorem answer_last {x : Reply} {c : InboundContext}
    (hcurrent : s.responder.current? x.stream = some c) (hlast : x.response.isClosing = true) :
    (s.answer x).book =
      { s.book with
        inbound := s.book.inbound.erase x.response.rid
        reports := s.tree.closed ++ [c.report] ++ s.tasks.filterMap ResponderTask.report?
        replies := s.replies ++ s.sentWith x } := by
  have hgive : s.responder.give s.tree (some x) =
      (s.responder.reply x.response,
        { s.responder with inbound := s.responder.inbound.erase x.response.rid },
        ValueTree.streamClosed s.tree c.path c.method) := by
    simp only [Responder.give, Responder.finish, hcurrent, hlast, if_true]
    rfl
  have hclosed : (ValueTree.streamClosed s.tree c.path c.method).closed =
      s.tree.closed ++ [c.report] := rfl
  simp only [answer, hgive, book, reports, duties, acts, Responder.reply, scheduled_sends,
    outgoing_sends, List.append_nil, sentWith, hclosed]

theorem answer_step {place : Nat} {x : Reply} (hx : s.answers[place]? = some x) :
    Book.Step s.book ((s.withoutAnswer place).answer x).book := by
  have hduties := duties_taken hx
  have hsends := s.sends_sentWith x
  cases hcurrent : s.responder.current? x.stream with
  | none =>
    rw [answer_stale (s := s.withoutAnswer place) hcurrent]
    exact .dies hduties
  | some c =>
    cases hlast : x.response.isClosing with
    | false =>
      rw [answer_still (s := s.withoutAnswer place) hcurrent hlast]
      exact .answers hcurrent hduties hsends
    | true =>
      rw [answer_last (s := s.withoutAnswer place) hcurrent hlast]
      refine .finishes hcurrent hduties hsends ?_
      rw [List.append_assoc]
      exact (List.perm_append_comm.append_left _).trans (.of_eq (List.append_assoc _ _ _).symm)

theorem after_step (s : Service σ) (m : Move σ) : Book.Step s.book (s.after m).book := by
  cases m with
  | connect => exact s.connect_step
  | loseWriter link => exact s.loseWriter_step link
  | disconnect => exact s.disconnect_step
  | take req => exact s.take_step req
  | refuse rid e => exact s.refuse_step rid e
  | change act => exact s.change_step act
  | call now place =>
    rw [after]
    cases htask : s.tasks[place]? with
    | none => exact rests_of_eq rfl
    | some task => exact call_step now htask
  | answer place =>
    rw [after]
    cases hx : s.answers[place]? with
    | none => exact rests_of_eq rfl
    | some x => exact answer_step hx

/-! ## Runs -/

/-- What workers have sent is among all that has been sent, in the same order. -/
theorem after_sent (s : Service σ) (m : Move σ) : ∃ os rs, (s.after m).sent = s.sent ++ os ∧
    (s.after m).replies = s.replies ++ rs ∧ (rs.map (·.outgoing)).Sublist os := by
  have hnone : ∀ {s' : Service σ} (os : List Outgoing), s'.sent = s.sent ++ os →
      s'.replies = s.replies → ∃ os rs, s'.sent = s.sent ++ os ∧ s'.replies = s.replies ++ rs ∧
        (rs.map (·.outgoing)).Sublist os := fun os hsent hreplies =>
    ⟨os, [], hsent, hreplies.trans (List.append_nil _).symm, List.nil_sublist _⟩
  have hsame : s.sent = s.sent ++ [] := (List.append_nil _).symm
  cases m with
  | connect | loseWriter | disconnect => exact hnone [] hsame rfl
  | take req =>
    simp only [after, take]
    split
    · exact hnone [] hsame rfl
    · exact hnone _ rfl rfl
  | refuse rid e =>
    simp only [after, refuse]
    split
    · exact hnone [] hsame rfl
    · exact hnone _ rfl rfl
  | change act => exact hnone _ rfl rfl
  | call now place =>
    rw [after]
    split
    · exact hnone [] hsame rfl
    · rename_i task _
      cases task <;> exact hnone _ rfl rfl
  | answer place =>
    rw [after]
    split
    · exact hnone [] hsame rfl
    · refine ⟨_, _, rfl, rfl, ?_⟩
      rw [outgoing_map]

theorem Kept.after (h : s.Kept) (m : Move σ) : (s.after m).Kept := by
  obtain ⟨os, rs, hsent, hreplies, hsub⟩ := s.after_sent m
  refine ⟨(s.after_step m).sound h.sound, ?_⟩
  rw [hsent, hreplies, List.map_append]
  exact h.sent.append hsub

theorem kept_ofMoves (t : σ) (moves : List (Move σ)) : (ofMoves t moves).Kept := by
  have hrun : ∀ (moves : List (Move σ)) (s : Service σ), s.Kept → (moves.foldl after s).Kept := by
    intro moves
    induction moves with
    | nil => exact fun s h => h
    | cons m moves ih => exact fun s h => ih (s.after m) (h.after m)
  exact hrun moves (start t) (.start t)

/-! ## What a responder owes -/

theorem call_silent {task : ResponderTask} (now : Timestamp) (s : Service σ)
    (hduty : task.duty?.isSome = true) :
    (s.call now task).responder.inbound = s.responder.inbound ∧
      (s.call now task).sent = s.sent := by
  have hregistry : ∀ x, task ≠ .registry x := by
    rintro x rfl
    cases hduty
  rw [call_eq now s hregistry]
  refine ⟨rfl, ?_⟩
  simp only [acts, outgoing_onChanges, List.append_nil]

theorem answer_told {place : Nat} {x : Reply} (hx : s.answers[place]? = some x)
    (hcurrent : (s.responder.current? x.stream).isSome = true) :
    (s.after (.answer place)).replies = s.replies ++ s.sentWith x := by
  obtain ⟨c, hc⟩ := Option.isSome_iff_exists.mp hcurrent
  rw [after, hx]
  cases hlast : x.response.isClosing with
  | false => exact congrArg Book.replies (answer_still (s := s.withoutAnswer place) hc hlast)
  | true => exact congrArg Book.replies (answer_last (s := s.withoutAnswer place) hc hlast)

theorem answer_completes {place : Nat} {x : Reply} (hx : s.answers[place]? = some x)
    (hcurrent : (s.responder.current? x.stream).isSome = true)
    (hlast : x.response.isClosing = true) :
    (s.after (.answer place)).responder.inbound.get? x.stream.rid = none := by
  obtain ⟨c, hc⟩ := Option.isSome_iff_exists.mp hcurrent
  have herase : (s.after (.answer place)).responder.inbound =
      s.responder.inbound.erase x.response.rid := by
    rw [after, hx]
    exact congrArg Book.inbound (answer_last (s := s.withoutAnswer place) hc hlast)
  rw [herase, Table.get?_erase, Reply.stream, if_pos rfl]

theorem take_closes {req : Request} (hbound : s.responder.outlet.isSome = true)
    (hmethod : req.method = .close) :
    (s.after (.take req)).responder.inbound.get? req.rid = none := by
  obtain ⟨outlet, houtlet⟩ := Option.isSome_iff_exists.mp hbound
  have hnone : acceptance? s.responder outlet.link req = none := by
    rw [acceptance?, hmethod]
    rfl
  rw [after, take_of_none houtlet hnone, Responder.handle, hmethod]
  simp only [acts, Responder.closeInbound]
  cases hopen : s.responder.inbound.get? req.rid with
  | none => exact hopen
  | some c => rw [Table.get?_erase, if_pos rfl]

theorem Kept.fair (h : s.Kept) : s.Fair where
  streams := by
    have htokens := h.sound.tokens
    rw [← Function.comp_def StreamKey.token Accepted.stream, ← List.map_map] at htokens
    exact htokens.of_map
  opened := by
    intro rid c hc
    obtain ⟨a, ha, hopens, -⟩ := h.sound.contexts rid c hc
    exact ⟨a, ha, hopens⟩
  reported := h.sound.reported
  leaves := fun m => (s.after_step m).reports h.sound
  once := (List.nodup_append.mp h.sound.once).2.1
  sent := h.sent
  answered := h.sound.replies
  own := fun hrebinds r hr a ha hstream => h.sound.link_eq hrebinds hr ha hstream
  current := fun m => (s.after_step m).replies
  stale := by
    intro place x hx hstale
    rw [Service.after, hx]
    exact answer_stale (s := s.withoutAnswer place) hstale
  silent := by
    intro now place task htask hduty
    rw [Service.after, htask]
    exact call_silent now { s with tasks := s.tasks.eraseIdx place } hduty
  told := fun place x => answer_told
  closed := fun req => take_closes
  completed := fun place x => answer_completes
  disconnected := by
    rw [Service.after, Ledger.disconnect_eq]
    rfl
  rejected := fun req outlet houtlet hreject => take_rejected houtlet hreject
  refused := by
    intro rid e outlet houtlet
    simp only [Service.after, refuse, houtlet]
    exact acts_reply s houtlet _

/-- Over any run each request that was accepted is answered at most once, while its stream is open,
and reported as closed once, when the stream is over. -/
theorem serves_fairly (t : σ) (moves : List (Move σ)) : (ofMoves t moves).Fair :=
  (kept_ofMoves t moves).fair

end

/-! ## A run -/

/-- A listing is asked for on one connection, and answered when another has taken its place. -/
def reboundMoves : List (Move (MemoryTree Binding)) :=
  [.connect, .take { rid := 1, method := .list, path := some "/" }, .connect, .call ⟨0, 0⟩ 0,
    .answer 0]

/-- The answer does not go out on the connection that the request came on. -/
theorem rebound_crosses : ¬ ∀ r ∈ (ofMoves {} reboundMoves).replies,
    ∀ a ∈ (ofMoves {} reboundMoves).accepted, a.stream = r.stream → r.outgoing.link = a.link := by
  have hreplies : (ofMoves {} reboundMoves).replies =
      [⟨⟨1, 1⟩, ⟨2, .response (.opened 1)⟩⟩] := rfl
  have haccepted : (ofMoves {} reboundMoves).accepted = [⟨⟨1, 1⟩, .list, "/", 1⟩] := rfl
  intro h
  rw [hreplies, haccepted] at h
  cases h _ List.mem_cons_self _ List.mem_cons_self rfl

end Service
end PeerLink
