import PeerLink.Requester
import PeerLink.Proofs.Tables

/-! # Streams of open requests

A request is granted under a number of its own. While it is open its handler hears responses; then
it is closed, once, perhaps after an error, and nothing more is heard.

* `HandlerEvent.stream?`: the request that an event is about, with its handler.
* `PendingTable.Step`, `PendingTable.Steps`: all that can become of the open requests.
* `PendingTable.Kept`: the invariant of the open requests, the granted ones and what was told.
-/

namespace PeerLink
set_option autoImplicit false

/-! ## Traces -/

/-- The request that an event is about, and the handler that is told. -/
def HandlerEvent.stream? : HandlerEvent → Option (Nat × Handler)
  | .response handler r => some (r.rid, handler)
  | .failed handler rid _ => some (rid, handler)
  | .closed handler rid => some (rid, handler)
  | .update .. | .ended .. => none

/-- What a handler was told about its request. -/
def trace (g : Nat × Handler) (events : List HandlerEvent) : List HandlerEvent :=
  events.filter fun e => e.stream? = some g

/-- Nothing but responses to the request. -/
def Responses (g : Nat × Handler) (events : List HandlerEvent) : Prop :=
  ∀ e ∈ events, ∃ r : Response, r.rid = g.1 ∧ e = .response g.2 r

/-- How a stream ends. -/
inductive Ending (g : Nat × Handler) : List HandlerEvent → Prop
  | closed : Ending g [.closed g.2 g.1]
  | failed (e : LinkError) : Ending g [.failed g.2 g.1 e, .closed g.2 g.1]

theorem trace_append (g : Nat × Handler) (es es' : List HandlerEvent) :
    trace g (es ++ es') = trace g es ++ trace g es' := List.filter_append ..

theorem trace_eq_self {g : Nat × Handler} {es : List HandlerEvent}
    (h : ∀ e ∈ es, e.stream? = some g) : trace g es = es :=
  List.filter_eq_self.mpr fun e he => decide_eq_true (h e he)

theorem trace_eq_nil {g : Nat × Handler} {es : List HandlerEvent}
    (h : ∀ e ∈ es, e.stream? ≠ some g) : trace g es = [] :=
  List.filter_eq_nil_iff.mpr fun e he => by simpa using h e he

/-- Events about others do not matter to a trace. -/
theorem trace_append_other {g : Nat × Handler} {es es' : List HandlerEvent}
    (h : ∀ e ∈ es', e.stream? ≠ some g) : trace g (es ++ es') = trace g es := by
  rw [trace_append, trace_eq_nil h, List.append_nil]

theorem Ending.stream {g : Nat × Handler} {es : List HandlerEvent} (h : Ending g es) :
    ∀ e ∈ es, e.stream? = some g := by
  cases h <;> simp [HandlerEvent.stream?]

/-! ## Steps -/

namespace PendingTable

/-- What can become of the open requests at a time, which requests are granted, and what is told. -/
inductive Step (t : PendingTable) : List (Nat × Handler) → List HandlerEvent → PendingTable → Prop
  /-- A number is taken for a request that is refused. -/
  | skips : Step t [] [] t.allocate.2
  | opens (method : Method) (path : Option String) (handler : Handler) :
      Step t [(t.allocate.1, handler)] []
        (t.allocate.2.insert ⟨t.allocate.1, method, path, handler⟩)
  | hears {s : Stub} {r : Response} (isOpen : t.get? r.rid = some s) :
      Step t [] [.response s.handler r] t
  | ends {s : Stub} {rid : Nat} {last : List HandlerEvent} (isOpen : t.get? rid = some s)
      (ending : Ending (rid, s.handler) last) : Step t [] last (t.remove rid).2
  /-- Subscriptions hear something. -/
  | elsewhere {es : List HandlerEvent} (none : ∀ e ∈ es, e.stream? = none) : Step t [] es t

inductive Steps (t : PendingTable) :
    List (Nat × Handler) → List HandlerEvent → PendingTable → Prop
  | refl : Steps t [] [] t
  | tail {gs gs' : List (Nat × Handler)} {es es' : List HandlerEvent} {t' t'' : PendingTable}
      (h : Steps t gs es t') (s : Step t' gs' es' t'') : Steps t (gs ++ gs') (es ++ es') t''

variable {t t' t'' : PendingTable} {gs gs' : List (Nat × Handler)} {es es' : List HandlerEvent}

theorem Step.steps (h : Step t gs es t') : Steps t gs es t' := .tail .refl h

theorem Steps.trans (h : Steps t gs es t') (h' : Steps t' gs' es' t'') :
    Steps t (gs ++ gs') (es ++ es') t'' := by
  induction h' with
  | refl =>
    rw [List.append_nil, List.append_nil]
    exact h
  | tail _ s ih =>
    rw [← List.append_assoc, ← List.append_assoc]
    exact ih.tail s

/-! ## The invariant -/

/-- What holds of the open requests, those that were granted so far, and what was told. -/
structure Kept (t : PendingTable) (granted : List (Nat × Handler)) (events : List HandlerEvent) :
    Prop where
  distinct : t.stubs.Distinct
  stubs : ∀ rid s, t.get? rid = some s → s.rid = rid ∧ (rid, s.handler) ∈ granted
  next : 1 ≤ t.nextRid
  numbers : ∀ g ∈ granted, 1 ≤ g.1 ∧ g.1 < t.nextRid
  once : (granted.map Prod.fst).Nodup
  known : ∀ e ∈ events, ∀ g, e.stream? = some g → g ∈ granted
  running : ∀ g ∈ granted, (t.get? g.1).isSome → Responses g (trace g events)
  ended : ∀ g ∈ granted, t.get? g.1 = none →
    ∃ rs last, trace g events = rs ++ last ∧ Responses g rs ∧ Ending g last

variable {granted : List (Nat × Handler)} {events : List HandlerEvent}

theorem Kept.start : Kept {} [] [] where
  distinct := Table.distinct_nil
  stubs := nofun
  next := Nat.le_refl 1
  numbers := nofun
  once := List.nodup_nil
  known := nofun
  running := nofun
  ended := nofun

theorem le_allocate (t : PendingTable) : t.nextRid ≤ t.allocate.1 :=
  Table.le_firstFree t.stubs _ t.nextRid

theorem get?_allocate (t : PendingTable) : t.get? t.allocate.1 = none :=
  Table.get?_firstFree t.stubs t.nextRid

/-- A request has one handler. -/
theorem Kept.handler_eq (h : Kept t granted events) {g g' : Nat × Handler} (hg : g ∈ granted)
    (hg' : g' ∈ granted) (he : g.1 = g'.1) : g = g' :=
  List.inj_on_of_nodup_map h.once hg hg' he

theorem trace_other {g g' : Nat × Handler} (hne : g ≠ g')
    (hes : ∀ e ∈ es, e.stream? = some g') : trace g (events ++ es) = trace g events := by
  refine trace_append_other fun e he => ?_
  rw [hes e he]
  exact fun h => hne (Option.some.inj h).symm

theorem Kept.skips (h : Kept t granted events) : Kept t.allocate.2 granted events where
  distinct := h.distinct
  stubs := h.stubs
  next := Nat.succ_pos _
  numbers := by
    intro g hg
    have hn := h.numbers g hg
    have hle := t.le_allocate
    exact ⟨hn.1, Nat.lt_succ_of_lt (Nat.lt_of_lt_of_le hn.2 hle)⟩
  once := h.once
  known := h.known
  running := h.running
  ended := h.ended

theorem Kept.opens (h : Kept t granted events) (method : Method) (path : Option String)
    (handler : Handler) :
    Kept (t.allocate.2.insert ⟨t.allocate.1, method, path, handler⟩)
      (granted ++ [(t.allocate.1, handler)]) events := by
  have hle := t.le_allocate
  have hnew : ∀ g ∈ granted, g.1 ≠ t.allocate.1 := by
    intro g hg
    have := (h.numbers g hg).2
    omega
  have hget : ∀ rid, (t.allocate.2.insert ⟨t.allocate.1, method, path, handler⟩).get? rid =
      if rid = t.allocate.1 then some ⟨t.allocate.1, method, path, handler⟩ else t.get? rid :=
    fun rid => Table.get?_insert t.stubs t.allocate.1 rid _
  refine ⟨h.distinct.insert _ _, ?stubs, Nat.succ_pos _, ?numbers, ?once, ?known, ?running, ?ended⟩
  case stubs =>
    intro rid s hs
    rw [hget] at hs
    split at hs
    · rename_i he
      rw [← Option.some.inj hs, he]
      exact ⟨rfl, List.mem_append_right _ List.mem_cons_self⟩
    · obtain ⟨hrid, hmem⟩ := h.stubs rid s hs
      exact ⟨hrid, List.mem_append_left _ hmem⟩
  case numbers =>
    intro g hg
    rcases List.mem_append.mp hg with hg | hg
    · have hn := h.numbers g hg
      exact ⟨hn.1, Nat.lt_succ_of_lt (Nat.lt_of_lt_of_le hn.2 hle)⟩
    · rw [List.mem_singleton.mp hg]
      exact ⟨Nat.le_trans h.next hle, Nat.lt_succ_self _⟩
  case once =>
    rw [List.map_append]
    refine List.nodup_append.mpr ⟨h.once, List.nodup_singleton _, fun n hn n' hn' => ?_⟩
    obtain ⟨g, hg, rfl⟩ := List.mem_map.mp hn
    rw [List.mem_singleton.mp hn']
    exact hnew g hg
  case known =>
    exact fun e he g hg => List.mem_append_left _ (h.known e he g hg)
  case running =>
    intro g hg hopen
    rcases List.mem_append.mp hg with hg | hg
    · rw [hget, if_neg (hnew g hg)] at hopen
      exact h.running g hg hopen
    · -- Nothing was told about a request that was not yet granted.
      have hnone : trace g events = [] := by
        refine trace_eq_nil fun e he hstream => ?_
        have hmem := h.known e he g hstream
        rw [List.mem_singleton.mp hg] at hmem
        exact hnew _ hmem rfl
      rw [hnone]
      exact fun e he => absurd he List.not_mem_nil
  case ended =>
    intro g hg hclosed
    rcases List.mem_append.mp hg with hg | hg
    · rw [hget, if_neg (hnew g hg)] at hclosed
      exact h.ended g hg hclosed
    · rw [List.mem_singleton.mp hg, hget, if_pos rfl] at hclosed
      cases hclosed

theorem Kept.hears (h : Kept t granted events) {s : Stub} {r : Response}
    (hopen : t.get? r.rid = some s) : Kept t granted (events ++ [.response s.handler r]) := by
  have hmem := (h.stubs r.rid s hopen).2
  have hes : ∀ e ∈ [HandlerEvent.response s.handler r], e.stream? = some (r.rid, s.handler) := by
    simp [HandlerEvent.stream?]
  refine ⟨h.distinct, h.stubs, h.next, h.numbers, h.once, ?known, ?running, ?ended⟩
  case known =>
    intro e he g hg
    rcases List.mem_append.mp he with he | he
    · exact h.known e he g hg
    · rw [hes e he] at hg
      exact Option.some.inj hg ▸ hmem
  case running =>
    intro g hg hsome
    by_cases hne : g = (r.rid, s.handler)
    · subst hne
      rw [trace_append, trace_eq_self hes]
      intro e he
      rcases List.mem_append.mp he with he | he
      · exact h.running _ hg hsome e he
      · exact ⟨r, rfl, List.mem_singleton.mp he⟩
    · rw [trace_other hne hes]
      exact h.running g hg hsome
  case ended =>
    intro g hg hnone
    have hne : g ≠ (r.rid, s.handler) := by
      rintro rfl
      rw [hopen] at hnone
      cases hnone
    rw [trace_other hne hes]
    exact h.ended g hg hnone

theorem Kept.ends (h : Kept t granted events) {s : Stub} {rid : Nat} {last : List HandlerEvent}
    (hopen : t.get? rid = some s) (hlast : Ending (rid, s.handler) last) :
    Kept (t.remove rid).2 granted (events ++ last) := by
  have hmem := (h.stubs rid s hopen).2
  have hget : ∀ rid', (t.remove rid).2.get? rid' = if rid' = rid then none else t.get? rid' :=
    fun rid' => Table.get?_erase t.stubs rid rid'
  refine ⟨h.distinct.erase rid, ?stubs, h.next, h.numbers, h.once, ?known, ?running, ?ended⟩
  case stubs =>
    intro rid' s' hs'
    rw [hget] at hs'
    split at hs'
    · cases hs'
    · exact h.stubs rid' s' hs'
  case known =>
    intro e he g hg
    rcases List.mem_append.mp he with he | he
    · exact h.known e he g hg
    · rw [hlast.stream e he] at hg
      exact Option.some.inj hg ▸ hmem
  case running =>
    intro g hg hsome
    rw [hget] at hsome
    split at hsome
    · cases hsome
    · rename_i hne
      rw [trace_other (fun he => hne (congrArg Prod.fst he)) hlast.stream]
      exact h.running g hg hsome
  case ended =>
    intro g hg hnone
    by_cases he : g.1 = rid
    · have hg' : g = (rid, s.handler) := h.handler_eq hg hmem he
      subst hg'
      refine ⟨trace (rid, s.handler) events, last, ?_, h.running _ hg (by simp [hopen]), hlast⟩
      rw [trace_append, trace_eq_self hlast.stream]
    · rw [hget, if_neg he] at hnone
      rw [trace_other (fun hg' => he (congrArg Prod.fst hg')) hlast.stream]
      exact h.ended g hg hnone

theorem Kept.elsewhere (h : Kept t granted events) (hes : ∀ e ∈ es, e.stream? = none) :
    Kept t granted (events ++ es) := by
  have htrace : ∀ g, trace g (events ++ es) = trace g events := by
    intro g
    refine trace_append_other fun e he => ?_
    rw [hes e he]
    exact nofun
  refine ⟨h.distinct, h.stubs, h.next, h.numbers, h.once, ?_, ?_, ?_⟩
  · intro e he g hg
    rcases List.mem_append.mp he with he | he
    · exact h.known e he g hg
    · rw [hes e he] at hg
      cases hg
  · intro g hg hsome
    rw [htrace]
    exact h.running g hg hsome
  · intro g hg hnone
    rw [htrace]
    exact h.ended g hg hnone

theorem Kept.step (h : Kept t granted events) (hs : Step t gs es t') :
    Kept t' (granted ++ gs) (events ++ es) := by
  cases hs with
  | skips =>
    rw [List.append_nil, List.append_nil]
    exact h.skips
  | opens method path handler =>
    rw [List.append_nil]
    exact h.opens method path handler
  | hears isOpen =>
    rw [List.append_nil]
    exact h.hears isOpen
  | ends isOpen ending =>
    rw [List.append_nil]
    exact h.ends isOpen ending
  | elsewhere none =>
    rw [List.append_nil]
    exact h.elsewhere none

/-- A number that was used once is not used again. -/
theorem Step.keeps (h : Step t gs es t') {rid : Nat} (hused : rid < t.nextRid) :
    rid < t'.nextRid ∧ (t'.get? rid = none ∨ t'.get? rid = t.get? rid) := by
  have hle := t.le_allocate
  cases h with
  | skips => exact ⟨Nat.lt_succ_of_lt (Nat.lt_of_lt_of_le hused hle), .inr rfl⟩
  | opens method path handler =>
    have hother : rid ≠ t.allocate.1 := by omega
    exact ⟨Nat.lt_succ_of_lt (Nat.lt_of_lt_of_le hused hle),
      .inr ((Table.get?_insert t.stubs _ _ _).trans (if_neg hother))⟩
  | hears => exact ⟨hused, .inr rfl⟩
  | @ends s rid' last isOpen ending =>
    refine ⟨hused, ?_⟩
    have hget : (t.remove rid').2.get? rid = if rid = rid' then none else t.get? rid :=
      Table.get?_erase t.stubs rid' rid
    rw [hget]
    split
    · exact .inl rfl
    · exact .inr rfl
  | elsewhere => exact ⟨hused, .inr rfl⟩

theorem Steps.keeps (h : Steps t gs es t') {rid : Nat} (hused : rid < t.nextRid) :
    rid < t'.nextRid ∧ (t'.get? rid = none ∨ t'.get? rid = t.get? rid) := by
  induction h with
  | refl => exact ⟨hused, .inr rfl⟩
  | tail _ hstep ih =>
    obtain ⟨hused', hkept⟩ := ih
    obtain ⟨hused'', hkept'⟩ := hstep.keeps hused'
    refine ⟨hused'', ?_⟩
    obtain hnone | hsame := hkept'
    · exact .inl hnone
    · exact hkept.imp hsame.trans hsame.trans

theorem Kept.steps (h : Kept t granted events) (hs : Steps t gs es t') :
    Kept t' (granted ++ gs) (events ++ es) := by
  induction hs with
  | refl =>
    rw [List.append_nil, List.append_nil]
    exact h
  | tail _ s ih =>
    rw [← List.append_assoc, ← List.append_assoc]
    exact ih.step s

end PendingTable
end PeerLink
