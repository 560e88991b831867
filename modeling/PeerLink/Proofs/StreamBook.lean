import PeerLink.Proofs.Ledger

/-! # The book of accepted streams

* `Accepted`: a request that was accepted, with the connection it came on; `SentReply`: what a
  worker sent on a stream.
* `Book`: the streams that are open, those that were accepted, what is reported as closed, what
  workers have still to answer, and what they have sent.
* `Book.Step`: what can become of it; `Book.Sound`: what all steps keep.
* `Book.Step.reports`: what is reported when; `Book.Step.replies`: who may send.
-/

namespace PeerLink
set_option autoImplicit false

/-! ## Requests and replies -/

structure Accepted where
  stream : StreamKey
  method : Method
  path : String
  /-- The connection that was bound when the request came. -/
  link : Nat
deriving DecidableEq

structure SentReply where
  stream : StreamKey
  outgoing : Outgoing

namespace Accepted

def report (a : Accepted) : String × Method := (a.path, a.method)

/-- A listing is answered with a snapshot on a stream that stays open, or with an error; a call or
a new value with a last response, or with an error. -/
def Answers (a : Accepted) (resp : Response) : Prop :=
  (∃ e, resp = .failed a.stream.rid e) ∨
    ∃ rows, resp = if a.method = .list then .opened a.stream.rid rows else .closed a.stream.rid rows

/-- An open stream is that of a request. -/
def Opens (a : Accepted) (rid : Nat) (c : InboundContext) : Prop :=
  a.stream = ⟨rid, c.token⟩ ∧ a.method = c.method ∧ a.path = c.path

end Accepted

/-- What a worker has still to do: call the tree, or answer. -/
inductive Duty
  | call (stream : StreamKey) (method : Method)
  | answer (reply : Reply)

namespace Duty

def stream : Duty → StreamKey
  | call s _ => s
  | answer x => x.stream

def Fits (a : Accepted) : Duty → Prop
  | call _ method => a.method = method
  | answer x => a.Answers x.response

end Duty

/-- Connection `j` is `i` or took its place, as did all that were between them. -/
def Rebound (rebinds : List Nat) (i j : Nat) : Prop :=
  i ≤ j ∧ ∀ k, i < k → k ≤ j → k ∈ rebinds

theorem Rebound.refl (rebinds : List Nat) (i : Nat) : Rebound rebinds i i :=
  ⟨Nat.le_refl i, fun _ h h' => absurd h (Nat.not_lt.mpr h')⟩

theorem Rebound.mono {rebinds rebinds' : List Nat} {i j : Nat} (h : Rebound rebinds i j)
    (hsub : rebinds ⊆ rebinds') : Rebound rebinds' i j :=
  ⟨h.1, fun k hi hj => hsub (h.2 k hi hj)⟩

theorem Rebound.next {rebinds : List Nat} {i j : Nat} (h : Rebound rebinds i j) :
    Rebound (rebinds ++ [j + 1]) i (j + 1) := by
  refine ⟨Nat.le_succ_of_le h.1, fun k hi hj => ?_⟩
  rcases Nat.lt_or_eq_of_le hj with hlt | rfl
  · exact List.mem_append_left _ (h.2 k hi (Nat.le_of_lt_succ hlt))
  · exact List.mem_append_right _ List.mem_cons_self

/-! ## The book -/

structure Book where
  inbound : Table Nat InboundContext := {}
  nextToken : Nat := 0
  /-- The connection that is bound. -/
  bound : Option Nat := none
  /-- How many connections there have been; they are numbered from one on. -/
  links : Nat := 0
  /-- Connections that were bound in the place of another. -/
  rebinds : List Nat := []
  accepted : List Accepted := []
  /-- What the tree was told, or will be, of streams that are over. -/
  reports : List (String × Method) := []
  duties : List Duty := []
  replies : List SentReply := []

namespace Book

def open? (b : Book) (s : StreamKey) : Option InboundContext :=
  (b.inbound.get? s.rid).filter (·.token = s.token)

/-- A connection takes the place of the one that is bound, if there is one. -/
def connect (b : Book) : Book :=
  { b with
    bound := some (b.links + 1)
    links := b.links + 1
    rebinds := if b.bound.isSome then b.rebinds ++ [b.links + 1] else b.rebinds }

def accept (b : Book) (rid : Nat) (method : Method) (path : String) (link : Nat) : Book :=
  { b with
    nextToken := b.nextToken + 1
    inbound := b.inbound.insert rid ⟨b.nextToken + 1, method, path⟩
    accepted := b.accepted ++ [⟨⟨rid, b.nextToken + 1⟩, method, path, link⟩]
    duties := b.duties ++ [.call ⟨rid, b.nextToken + 1⟩ method] }

/-- What is sent when a worker answers: nothing if the writer is gone. -/
def Sends (b : Book) (x : Reply) (rs : List SentReply) : Prop :=
  rs = [] ∨ ∃ link, b.bound = some link ∧ rs = [⟨x.stream, ⟨link, .response x.response⟩⟩]

inductive Step : Book → Book → Prop
  /-- Reports and duties may change their order. -/
  | rests {b : Book} {reports : List (String × Method)} {duties : List Duty}
      (hreports : reports.Perm b.reports) (hduties : duties.Perm b.duties) :
      Step b { b with reports, duties }
  | connects {b : Book} : Step b b.connect
  | disconnects {b : Book} {reports : List (String × Method)}
      (hreports : reports.Perm (b.reports ++ b.inbound.values.map (·.report))) :
      Step b { b with bound := none, inbound := {}, reports }
  | accepts {b : Book} {rid : Nat} {method : Method} {path : String} {link : Nat}
      {duties : List Duty} (hbound : b.bound = some link) (hnew : b.inbound.get? rid = none)
      (hduties : duties.Perm (b.accept rid method path link).duties) :
      Step b { b.accept rid method path link with duties }
  /-- A stream is closed by the other peer. -/
  | leaves {b : Book} {rid : Nat} {c : InboundContext} {reports : List (String × Method)}
      (hopen : b.inbound.get? rid = some c) (hreports : reports.Perm (b.reports ++ [c.report])) :
      Step b { b with inbound := b.inbound.erase rid, reports }
  | calls {b : Book} {s : StreamKey} {method : Method} {x : Reply} {rest duties : List Duty}
      (hstream : x.stream = s)
      (hfits : ∀ a : Accepted, a.stream = s → a.method = method → a.Answers x.response)
      (hbefore : b.duties.Perm (.call s method :: rest))
      (hafter : duties.Perm (.answer x :: rest)) : Step b { b with duties }
  /-- A worker dies, or answers on a stream that is over. -/
  | dies {b : Book} {d : Duty} {duties : List Duty} (hbefore : b.duties.Perm (d :: duties)) :
      Step b { b with duties }
  | answers {b : Book} {x : Reply} {c : InboundContext} {duties : List Duty}
      {rs : List SentReply} (hopen : b.open? x.stream = some c)
      (hbefore : b.duties.Perm (.answer x :: duties)) (hsends : b.Sends x rs) :
      Step b { b with duties, replies := b.replies ++ rs }
  | finishes {b : Book} {x : Reply} {c : InboundContext} {duties : List Duty}
      {rs : List SentReply} {reports : List (String × Method)}
      (hopen : b.open? x.stream = some c) (hbefore : b.duties.Perm (.answer x :: duties))
      (hsends : b.Sends x rs) (hreports : reports.Perm (b.reports ++ [c.report])) :
      Step b
        { b with
          inbound := b.inbound.erase x.response.rid, reports, duties, replies := b.replies ++ rs }

structure Sound (b : Book) : Prop where
  distinct : b.inbound.Distinct
  /-- Streams are told apart by their tokens. -/
  tokens : (b.accepted.map (·.stream.token)).Nodup
  issued : ∀ a ∈ b.accepted, a.stream.token ≤ b.nextToken
  latest : ∀ link, b.bound = some link → link = b.links
  contexts : ∀ rid c, b.inbound.get? rid = some c →
    ∃ a ∈ b.accepted, a.Opens rid c ∧ ∃ link, b.bound = some link ∧ Rebound b.rebinds a.link link
  /-- A stream that was accepted is open or reported. -/
  reported : (b.accepted.map (·.report)).Perm (b.reports ++ b.inbound.values.map (·.report))
  /-- For each stream there is one answer to be sent, or one that was sent. -/
  once : (b.duties.map (·.stream) ++ b.replies.map (·.stream)).Nodup
  duties : ∀ d ∈ b.duties, ∃ a ∈ b.accepted, a.stream = d.stream ∧ d.Fits a
  replies : ∀ r ∈ b.replies, ∃ a ∈ b.accepted, a.stream = r.stream ∧
    Rebound b.rebinds a.link r.outgoing.link ∧
    ∃ resp, r.outgoing.message = .response resp ∧ a.Answers resp

variable {b b' : Book}

theorem Sound.start : Sound {} where
  distinct := Table.distinct_nil
  tokens := List.nodup_nil
  issued := nofun
  latest := nofun
  contexts := nofun
  reported := .nil
  once := List.nodup_nil
  duties := nofun
  replies := nofun

/-- A stream is that of one request. -/
theorem Sound.accepted_eq (h : b.Sound) {a a' : Accepted} (ha : a ∈ b.accepted)
    (ha' : a' ∈ b.accepted) (hstream : a.stream = a'.stream) : a = a' :=
  List.inj_on_of_nodup_map h.tokens ha ha' (congrArg StreamKey.token hstream)

/-- As long as no connection takes the place of another, each reply goes out on the connection of
its request. -/
theorem Sound.link_eq (h : b.Sound) (hrebinds : b.rebinds = []) {r : SentReply} {a : Accepted}
    (hr : r ∈ b.replies) (ha : a ∈ b.accepted) (hstream : a.stream = r.stream) :
    r.outgoing.link = a.link := by
  obtain ⟨a', ha', hstream', ⟨hle, hbetween⟩, -⟩ := h.replies r hr
  obtain rfl := h.accepted_eq ha ha' (hstream.trans hstream'.symm)
  refine (Nat.eq_or_lt_of_le hle).elim Eq.symm fun hlt => ?_
  have hmem := hbetween _ hlt (Nat.le_refl _)
  rw [hrebinds] at hmem
  cases hmem

theorem Sound.connect (h : b.Sound) : b.connect.Sound := by
  have hsub : b.rebinds ⊆ b.connect.rebinds := by
    simp only [Book.connect]
    split
    · exact List.subset_append_left _ _
    · exact List.Subset.refl _
  refine { h with latest := ?latest, contexts := ?contexts, replies := ?replies }
  case latest =>
    intro link hlink
    exact (Option.some.inj hlink).symm
  case contexts =>
    intro rid c hc
    obtain ⟨a, ha, hopens, link, hbound, hrebound⟩ := h.contexts rid c hc
    obtain rfl := h.latest link hbound
    refine ⟨a, ha, hopens, _, rfl, ?_⟩
    simp only [Book.connect, hbound, Option.isSome_some, if_true]
    exact hrebound.next
  case replies =>
    intro r hr
    obtain ⟨a, ha, hstream, hrebound, hanswers⟩ := h.replies r hr
    exact ⟨a, ha, hstream, hrebound.mono hsub, hanswers⟩

/-- All that workers have to answer, or have answered, belongs to requests that were accepted. -/
theorem Sound.known (h : b.Sound) {s : StreamKey}
    (hs : s ∈ b.duties.map (·.stream) ++ b.replies.map (·.stream)) :
    ∃ a ∈ b.accepted, a.stream = s := by
  rcases List.mem_append.mp hs with hs | hs
  · obtain ⟨d, hd, rfl⟩ := List.mem_map.mp hs
    obtain ⟨a, ha, hstream, -⟩ := h.duties d hd
    exact ⟨a, ha, hstream⟩
  · obtain ⟨r, hr, rfl⟩ := List.mem_map.mp hs
    obtain ⟨a, ha, hstream, -⟩ := h.replies r hr
    exact ⟨a, ha, hstream⟩

theorem Sound.perm (h : b.Sound) {reports : List (String × Method)} {duties : List Duty}
    (hreports : reports.Perm b.reports) (hduties : duties.Perm b.duties) :
    ({ b with reports, duties } : Book).Sound :=
  { h with
    reported := h.reported.trans (hreports.symm.append_right _)
    once := (((hduties.map _).append_right _).nodup_iff).mpr h.once
    duties := fun d hd => h.duties d (hduties.mem_iff.mp hd) }

theorem Sound.accept (h : b.Sound) {rid : Nat} {method : Method} {path : String} {link : Nat}
    (hbound : b.bound = some link) (hnew : b.inbound.get? rid = none) :
    (b.accept rid method path link).Sound := by
  have hold : ∀ a ∈ b.accepted, a ∈ (b.accept rid method path link).accepted :=
    fun a ha => List.mem_append_left _ ha
  have hissued : ∀ a ∈ b.accepted, a.stream.token ≠ b.nextToken + 1 := by
    intro a ha he
    have := h.issued a ha
    omega
  refine ⟨h.distinct.insert _ _, ?tokens, ?issued, h.latest, ?contexts, ?reported, ?once, ?duties,
    ?replies⟩
  case tokens =>
    simp only [Book.accept, List.map_append, List.map_cons, List.map_nil]
    refine List.nodup_append.mpr ⟨h.tokens, List.nodup_singleton _, fun n hn n' hn' => ?_⟩
    obtain ⟨a, ha, rfl⟩ := List.mem_map.mp hn
    rw [List.mem_singleton.mp hn']
    exact hissued a ha
  case issued =>
    intro a ha
    rcases List.mem_append.mp ha with ha | ha
    · exact Nat.le_succ_of_le (h.issued a ha)
    · rw [List.mem_singleton.mp ha]
      exact Nat.le_refl _
  case contexts =>
    intro rid' c hc
    simp only [Book.accept, Table.get?_insert] at hc
    split at hc
    · rename_i he
      obtain rfl := Option.some.inj hc
      exact ⟨_, List.mem_append_right _ List.mem_cons_self, ⟨by rw [he], rfl, rfl⟩, link, hbound,
        .refl _ _⟩
    · obtain ⟨a, ha, hopens⟩ := h.contexts rid' c hc
      exact ⟨a, hold a ha, hopens⟩
  case reported =>
    simp only [Book.accept, Table.values, Table.entries_insert hnew, List.map_append]
    rw [← List.append_assoc]
    exact h.reported.append_right _
  case once =>
    simp only [Book.accept, List.map_append, List.map_cons, List.map_nil, List.append_assoc]
    refine List.perm_middle.nodup_iff.mpr (List.nodup_cons.mpr ⟨fun hmem => ?_, h.once⟩)
    obtain ⟨a, ha, hstream⟩ := h.known hmem
    exact hissued a ha (congrArg StreamKey.token hstream)
  case duties =>
    intro d hd
    rcases List.mem_append.mp hd with hd | hd
    · obtain ⟨a, ha, hfits⟩ := h.duties d hd
      exact ⟨a, hold a ha, hfits⟩
    · rw [List.mem_singleton.mp hd]
      exact ⟨_, List.mem_append_right _ List.mem_cons_self, rfl, rfl⟩
  case replies =>
    intro r hr
    obtain ⟨a, ha, hanswers⟩ := h.replies r hr
    exact ⟨a, hold a ha, hanswers⟩

theorem Sound.leave (h : b.Sound) {rid : Nat} {c : InboundContext}
    {reports : List (String × Method)} (hopen : b.inbound.get? rid = some c)
    (hreports : reports.Perm (b.reports ++ [c.report])) :
    ({ b with inbound := b.inbound.erase rid, reports } : Book).Sound := by
  refine { h with distinct := h.distinct.erase rid, contexts := ?contexts, reported := ?reported }
  case contexts =>
    intro rid' c' hc
    exact h.contexts rid' c' (Table.get?_erase_eq_some.mp hc).2
  case reported =>
    have hvalues : (b.inbound.values.map (·.report)).Perm
        (c.report :: (b.inbound.erase rid).values.map (·.report)) :=
      ((Table.perm_erase h.distinct hopen).map Prod.snd).map InboundContext.report
    refine h.reported.trans ((hvalues.append_left _).trans ?_)
    rw [List.append_cons]
    exact hreports.symm.append_right _

theorem Sound.disconnect (h : b.Sound) {reports : List (String × Method)}
    (hreports : reports.Perm (b.reports ++ b.inbound.values.map (·.report))) :
    ({ b with bound := none, inbound := {}, reports } : Book).Sound :=
  { h with
    distinct := Table.distinct_nil
    latest := nofun
    contexts := nofun
    reported := by
      refine h.reported.trans (hreports.symm.trans ?_)
      exact .of_eq (List.append_nil reports).symm }

/-- A worker has one thing to do in the place of another. -/
theorem Sound.proceed (h : b.Sound) {d d' : Duty} {rest duties : List Duty}
    (hbefore : b.duties.Perm (d :: rest)) (hafter : duties.Perm (d' :: rest))
    (hstream : d'.stream = d.stream)
    (hfits : ∀ a : Accepted, a.stream = d.stream → d.Fits a → d'.Fits a) :
    ({ b with duties } : Book).Sound := by
  refine { h with once := ?once, duties := ?duties }
  case once =>
    have hstreams : (duties.map (·.stream)).Perm (b.duties.map (·.stream)) := by
      refine (hafter.map _).trans (.trans ?_ (hbefore.map _).symm)
      rw [List.map_cons, List.map_cons, hstream]
    exact (hstreams.append_right _).nodup_iff.mpr h.once
  case duties =>
    intro e he
    rcases List.mem_cons.mp (hafter.mem_iff.mp he) with rfl | he
    · obtain ⟨a, ha, hs, hf⟩ := h.duties d (hbefore.mem_iff.mpr List.mem_cons_self)
      exact ⟨a, ha, hs.trans hstream.symm, hfits a hs hf⟩
    · exact h.duties e (hbefore.mem_iff.mpr (List.mem_cons_of_mem d he))

theorem Sound.drop (h : b.Sound) {d : Duty} {duties : List Duty}
    (hbefore : b.duties.Perm (d :: duties)) : ({ b with duties } : Book).Sound := by
  refine { h with once := ?once, duties := ?duties }
  case once =>
    have honce := ((hbefore.map _).append_right _).nodup_iff.mp h.once
    exact (List.nodup_cons.mp honce).2
  case duties =>
    exact fun e he => h.duties e (hbefore.mem_iff.mpr (List.mem_cons_of_mem d he))

theorem open?_eq_some {s : StreamKey} {c : InboundContext} :
    b.open? s = some c ↔ b.inbound.get? s.rid = some c ∧ c.token = s.token := by
  simp [open?, Option.filter_eq_some_iff]

theorem Sound.answer (h : b.Sound) {x : Reply} {c : InboundContext} {duties : List Duty}
    {rs : List SentReply} (hopen : b.open? x.stream = some c)
    (hbefore : b.duties.Perm (.answer x :: duties)) (hsends : b.Sends x rs) :
    ({ b with duties, replies := b.replies ++ rs } : Book).Sound := by
  have hdrop := h.drop hbefore
  rcases hsends with rfl | ⟨link, hbound, rfl⟩
  · rw [List.append_nil]
    exact hdrop
  · obtain ⟨hcontext, htoken⟩ := open?_eq_some.mp hopen
    obtain ⟨a, ha, hopens, link', hbound', hrebound⟩ := h.contexts _ c hcontext
    obtain rfl := Option.some.inj (hbound.symm.trans hbound')
    have hstream : a.stream = x.stream := by
      rw [hopens.1, htoken]
    -- The request whose stream is open is the one that the worker was started for.
    obtain ⟨a', ha', hstream', hanswers⟩ :=
      h.duties (.answer x) (hbefore.mem_iff.mpr List.mem_cons_self)
    obtain rfl := h.accepted_eq ha ha' (hstream.trans hstream'.symm)
    refine { hdrop with once := ?once, replies := ?replies }
    case once =>
      have honce := ((hbefore.map _).append_right _).nodup_iff.mp h.once
      rw [List.map_append, List.map_cons, List.map_nil]
      refine (List.Perm.nodup_iff ?_).mp honce
      rw [List.map_cons, List.cons_append, ← List.append_assoc]
      exact (List.perm_append_singleton _ _).symm
    case replies =>
      intro r hr
      rcases List.mem_append.mp hr with hr | hr
      · exact h.replies r hr
      · rw [List.mem_singleton.mp hr]
        exact ⟨a, ha, hstream, hrebound, _, rfl, hanswers⟩

theorem Step.sound (h : Step b b') (hs : b.Sound) : b'.Sound := by
  cases h with
  | rests hreports hduties => exact hs.perm hreports hduties
  | connects => exact hs.connect
  | disconnects hreports => exact hs.disconnect hreports
  | accepts hbound hnew hduties => exact (hs.accept hbound hnew).perm (.refl _) hduties
  | leaves hopen hreports => exact hs.leave hopen hreports
  | calls hstream hfits hbefore hafter =>
    exact hs.proceed hbefore hafter hstream fun a ha hmethod => hfits a ha hmethod
  | dies hbefore => exact hs.drop hbefore
  | answers hopen hbefore hsends => exact hs.answer hopen hbefore hsends
  | finishes hopen hbefore hsends hreports =>
    exact (hs.answer hopen hbefore hsends).leave (open?_eq_some.mp hopen).1 hreports

/-! ## When streams are reported, and who may send -/

/-- What there is to report of the streams that were open in `b` and are not in `b'`. -/
def left (b b' : Book) : List (String × Method) :=
  (b.inbound.entries.filter fun e => b'.inbound.get? e.1 ≠ some e.2).map (·.2.report)

theorem left_perm {gone kept : List (Nat × InboundContext)}
    (hall : b.inbound.entries.Perm (gone ++ kept))
    (hgone : ∀ e ∈ gone, b'.inbound.get? e.1 ≠ some e.2)
    (hkept : ∀ e ∈ kept, b'.inbound.get? e.1 = some e.2) :
    (b.left b').Perm (gone.map (·.2.report)) := by
  have hfilter : ((gone ++ kept).filter fun e => b'.inbound.get? e.1 ≠ some e.2) = gone := by
    rw [List.filter_append, List.filter_eq_self.mpr fun e he => decide_eq_true (hgone e he),
      List.filter_eq_nil_iff.mpr fun e he => by simp [hkept e he], List.append_nil]
  rw [← hfilter]
  exact (hall.filter _).map _

/-- As long as no stream is over, there is nothing to report. -/
theorem left_nil (h : ∀ e ∈ b.inbound.entries, b'.inbound.get? e.1 = some e.2) :
    b.left b' = [] := by
  have hall : b.inbound.entries.Perm ([] ++ b.inbound.entries) := .refl _
  exact List.perm_nil.mp (left_perm hall nofun h)

theorem Sound.left_same (h : b.Sound) (hsame : b'.inbound = b.inbound) : b.left b' = [] := by
  refine left_nil fun e he => ?_
  rw [hsame]
  exact (Table.mem_entries h.distinct).mp he

theorem Sound.left_erase (h : b.Sound) {rid : Nat} {c : InboundContext}
    (hopen : b.inbound.get? rid = some c) (herase : b'.inbound = b.inbound.erase rid) :
    (b.left b').Perm [c.report] := by
  have hall : b.inbound.entries.Perm ([(rid, c)] ++ (b.inbound.erase rid).entries) :=
    Table.perm_erase h.distinct hopen
  refine left_perm hall (fun e he => ?_) fun e he => ?_
  · rw [List.mem_singleton.mp he, herase, Table.get?_erase, if_pos rfl]
    exact nofun
  · rw [herase]
    exact (Table.mem_entries (h.distinct.erase rid)).mp he

/-- What is reported, at once or by a task that is scheduled, are the streams that are over. -/
theorem Step.reports (h : Step b b') (hs : b.Sound) : b'.reports.Perm (b.reports ++ b.left b') := by
  have hnone : ∀ {b' : Book}, b'.reports.Perm b.reports → b.left b' = [] →
      b'.reports.Perm (b.reports ++ b.left b') := by
    intro b' hreports hleft
    rw [hleft, List.append_nil]
    exact hreports
  cases h with
  | rests hreports _ => exact hnone hreports (hs.left_same rfl)
  | connects => exact hnone (.refl _) (hs.left_same rfl)
  | disconnects hreports =>
    have hall : b.inbound.entries.Perm (b.inbound.entries ++ []) := .of_eq (List.append_nil _).symm
    rw [Table.values, List.map_map] at hreports
    refine hreports.trans (.append_left _ (.symm (left_perm hall (fun _ _ => ?_) ?_)))
    · exact nofun
    · exact nofun
  | accepts hbound hnew hduties =>
    refine hnone (.refl _) (left_nil fun e he => ?_)
    have hget := (Table.mem_entries hs.distinct).mp he
    have hne : e.1 ≠ _ := fun he => nomatch (he ▸ hget).symm.trans hnew
    simp only [Book.accept, Table.get?_insert, if_neg hne, hget]
  | leaves hopen hreports =>
    exact hreports.trans ((hs.left_erase hopen rfl).symm.append_left _)
  | calls | dies | answers => exact hnone (.refl _) (hs.left_same rfl)
  | finishes hopen _ _ hreports =>
    exact hreports.trans ((hs.left_erase (open?_eq_some.mp hopen).1 rfl).symm.append_left _)

/-- Whoever sends, sends on the connection that is bound while the stream is open. -/
theorem Step.replies (h : Step b b') : ∃ rs, b'.replies = b.replies ++ rs ∧
    ∀ r ∈ rs, (b.open? r.stream).isSome ∧ b.bound = some r.outgoing.link := by
  have hnone : ∀ {b' : Book}, b'.replies = b.replies → ∃ rs, b'.replies = b.replies ++ rs ∧
      ∀ r ∈ rs, (b.open? r.stream).isSome ∧ b.bound = some r.outgoing.link :=
    fun hsame => ⟨[], hsame.trans (List.append_nil _).symm, nofun⟩
  have hone : ∀ {x : Reply} {c : InboundContext} {rs : List SentReply},
      b.open? x.stream = some c → b.Sends x rs →
      ∀ r ∈ rs, (b.open? r.stream).isSome ∧ b.bound = some r.outgoing.link := by
    intro x c rs hopen hsends r hr
    rcases hsends with rfl | ⟨link, hbound, rfl⟩
    · cases hr
    · rw [List.mem_singleton.mp hr, hopen]
      exact ⟨rfl, hbound⟩
  cases h with
  | rests | connects | disconnects | accepts | leaves | calls | dies => exact hnone rfl
  | answers hopen _ hsends => exact ⟨_, rfl, hone hopen hsends⟩
  | finishes hopen _ hsends _ => exact ⟨_, rfl, hone hopen hsends⟩

end Book
end PeerLink
