import PeerLink.Requester.Subscriptions
import PeerLink.Responder.Registry
import PeerLink.Proofs.Tables

/-! # Subscriptions that are asked for

A requester asks for subscriptions in batches; what a registry will hold once it has applied them is
read off the batches, one number at a time.

* `Wish`: a subscription is to begin or to end. `outcome`: what wishes make of one number.
* `SubscriptionTable.asked`: what the wishes of the next batch make of it.
* `SubscriptionTable.Ordered`: the invariant of a requester's table, and what its operations do.
-/

namespace PeerLink
set_option autoImplicit false

/-! ## Wishes -/

inductive Wish
  | begins (p : SubscribePath)
  | ends (sid : Nat)

def Wish.sid : Wish → Nat
  | .begins p => p.sid
  | .ends sid => sid

def RegistryOp.wishes : RegistryOp → List Wish
  | .subscribe ps => ps.map .begins
  | .unsubscribe sids => sids.map .ends

/-- What a wish makes of the path and the quality of a number. Paths that are not valid are passed
over. -/
def Wish.on (sid : Nat) (x : Option (String × Nat)) : Wish → Option (String × Nat)
  | .begins p => if p.sid = sid ∧ Path.valid p.path = true then some (p.path, p.qos) else x
  | .ends sid' => if sid' = sid then none else x

def outcome (sid : Nat) (ws : List Wish) (x : Option (String × Nat)) : Option (String × Nat) :=
  ws.foldl (Wish.on sid) x

/-- The numbers that are to begin. -/
def begun (ws : List Wish) : List Nat :=
  ws.filterMap fun w =>
    match w with
    | .begins p => some p.sid
    | .ends _ => none

theorem begun_append (ws ws' : List Wish) : begun (ws ++ ws') = begun ws ++ begun ws' :=
  List.filterMap_append

theorem begun_map_begins (ps : List SubscribePath) :
    begun (ps.map .begins) = ps.map (·.sid) := by
  simp [begun, List.filterMap_map]

theorem begun_map_ends (sids : List Nat) : begun (sids.map .ends) = [] := by
  simp [begun, List.filterMap_map]

theorem outcome_append (sid : Nat) (ws ws' : List Wish) (x : Option (String × Nat)) :
    outcome sid (ws ++ ws') x = outcome sid ws' (outcome sid ws x) := List.foldl_append

theorem outcome_cons (sid : Nat) (w : Wish) (ws : List Wish) (x : Option (String × Nat)) :
    outcome sid (w :: ws) x = outcome sid ws (w.on sid x) := rfl

/-- Nothing begins that nobody asks for. -/
theorem outcome_none {sid : Nat} : ∀ {ws : List Wish}, sid ∉ begun ws → outcome sid ws none = none
  | [], _ => rfl
  | .begins p :: ws, h => by
    have hne : ¬ p.sid = sid := fun he => h (he ▸ List.mem_cons_self)
    have hws : sid ∉ begun ws := fun hm => h (List.mem_cons_of_mem _ hm)
    rw [outcome_cons, Wish.on, if_neg fun hp => hne hp.1]
    exact outcome_none hws
  | .ends sid' :: ws, h => by
    rw [outcome_cons, Wish.on, ite_self]
    exact outcome_none h

theorem outcome_ends (sid : Nat) (sids : List Nat) (x : Option (String × Nat)) :
    outcome sid (sids.map .ends) x = if sid ∈ sids then none else x := by
  induction sids generalizing x with
  | nil => simp [outcome]
  | cons s sids ih =>
    rw [List.map_cons, outcome_cons, ih, Wish.on]
    by_cases hs : s = sid
    · simp [hs]
    · simp [hs, Ne.symm hs]

/-! ## Views -/

/-- What a registry holds of a number. -/
def Registry.view (r : Registry) (sid : Nat) : Option (String × Nat) :=
  (r.entries.get? sid).map fun e => (e.path, e.qos)

namespace SubscriptionTable

/-- What a registry ought to hold of a number. -/
def view (q : SubscriptionTable) (sid : Nat) : Option (String × Nat) :=
  ((q.entries.get? sid).map fun e => (e.path, e.qos)).filter fun p => Path.valid p.1

/-- The wishes of the next batch. -/
def next (q : SubscriptionTable) : List Wish :=
  (q.toSubscribe.filterMap q.batchEntry).map .begins ++ q.toUnsubscribe.map .ends

/-- What the next batch makes of a number. -/
def asked (q : SubscriptionTable) (sid : Nat) (x : Option (String × Nat)) : Option (String × Nat) :=
  if sid ∈ q.toUnsubscribe then none
  else if sid ∈ q.toSubscribe then (q.view sid).or x
  else x

variable {q : SubscriptionTable}

theorem outcome_begins (q : SubscriptionTable) (sid : Nat) (sids : List Nat)
    (x : Option (String × Nat)) :
    outcome sid ((sids.filterMap q.batchEntry).map .begins) x =
      if sid ∈ sids then (q.view sid).or x else x := by
  induction sids generalizing x with
  | nil => simp [outcome]
  | cons s sids ih =>
    cases he : q.entries.get? s with
    | none =>
      have hb : q.batchEntry s = none := by rw [batchEntry, he, Option.map_none]
      rw [List.filterMap_cons_none hb, ih]
      by_cases hs : sid = s
      · have hv : q.view sid = none := by rw [view, hs, he, Option.map_none, Option.filter_none]
        rw [hv, Option.none_or, ite_self, ite_self]
      · simp [hs]
    | some e =>
      have hb : q.batchEntry s = some ⟨e.path, s, e.qos⟩ := by rw [batchEntry, he, Option.map_some]
      rw [List.filterMap_cons_some hb, List.map_cons, outcome_cons, ih, Wish.on]
      by_cases hs : s = sid
      · subst hs
        have hv : q.view s = if Path.valid e.path then some (e.path, e.qos) else none := by
          rw [view, he, Option.map_some, Option.filter_some]
        rw [hv]
        by_cases hvalid : Path.valid e.path <;> simp [hvalid]
      · simp [hs, Ne.symm hs]

theorem outcome_next (q : SubscriptionTable) (sid : Nat) (x : Option (String × Nat)) :
    outcome sid q.next x = q.asked sid x := by
  rw [next, outcome_append, outcome_ends, outcome_begins, asked]

theorem asked_of_nil (h1 : q.toSubscribe = []) (h2 : q.toUnsubscribe = []) (sid : Nat)
    (x : Option (String × Nat)) : q.asked sid x = x := by
  simp [asked, h1, h2]

/-- A number whose entry and batches are the same has the same future. -/
theorem asked_congr {q q' : SubscriptionTable} {sid : Nat} {x : Option (String × Nat)}
    (hget : q'.entries.get? sid = q.entries.get? sid)
    (hsub : sid ∈ q'.toSubscribe ↔ sid ∈ q.toSubscribe)
    (hun : sid ∈ q'.toUnsubscribe ↔ sid ∈ q.toUnsubscribe) (h : q.asked sid x = q.view sid) :
    q'.asked sid x = q'.view sid := by
  have hview : q'.view sid = q.view sid := by rw [view, view, hget]
  rw [asked, hview]
  simp only [hsub, hun]
  exact h

/-! ## The table of a requester -/

/-- Numbers are given away in order, and those in the next batch have not been sent. -/
structure Ordered (q : SubscriptionTable) : Prop where
  below : ∀ sid e, q.entries.get? sid = some e → sid < q.nextSid
  unsent : ∀ sid e, q.entries.get? sid = some e → (sid ∈ q.toSubscribe ↔ e.sent = false)
  waiting : ∀ sid ∈ q.toSubscribe, ∃ e, q.entries.get? sid = some e
  bound : q.nextSid ≤ wordBound
  scheduled : q.toSubscribe ≠ [] ∨ q.toUnsubscribe ≠ [] → q.flushScheduled = true

theorem Ordered.get?_next (h : q.Ordered) : q.entries.get? q.nextSid = none := by
  cases he : q.entries.get? q.nextSid with
  | none => rfl
  | some e => exact absurd (h.below _ e he) (Nat.lt_irrefl _)

theorem Ordered.add_fst (h : q.Ordered) (path : String) (qos : Nat) (handler : Handler) :
    (q.add path qos handler).1 = q.nextSid := by
  have hfree : q.entries.contains q.nextSid = false := by
    rw [Table.contains, h.get?_next, Option.isSome_none]
  change q.entries.firstFree (q.entries.size + 1) q.nextSid = q.nextSid
  rw [Table.firstFree, hfree, if_neg Bool.false_ne_true]

theorem Ordered.get?_add (h : q.Ordered) (path : String) (qos : Nat) (handler : Handler)
    (sid : Nat) : (q.add path qos handler).2.2.entries.get? sid =
      if sid = q.nextSid then some { path, qos, handler } else q.entries.get? sid := by
  have he : (q.add path qos handler).2.2.entries.get? sid = _ :=
    Table.get?_insert q.entries (q.add path qos handler).1 sid { path, qos, handler }
  rw [he, h.add_fst]

theorem Ordered.toSubscribe_add (h : q.Ordered) (path : String) (qos : Nat) (handler : Handler) :
    (q.add path qos handler).2.2.toSubscribe = q.toSubscribe ++ [q.nextSid] := by
  have he : (q.add path qos handler).2.2.toSubscribe =
    q.toSubscribe ++ [(q.add path qos handler).1] := rfl
  rw [he, h.add_fst]

theorem Ordered.nextSid_add (h : q.Ordered) (path : String) (qos : Nat) (handler : Handler) :
    (q.add path qos handler).2.2.nextSid = q.nextSid + 1 := by
  have he : (q.add path qos handler).2.2.nextSid = (q.add path qos handler).1 + 1 := rfl
  rw [he, h.add_fst]

theorem Ordered.add (h : q.Ordered) (hbound : q.nextSid < wordBound) (path : String) (qos : Nat)
    (handler : Handler) : (q.add path qos handler).2.2.Ordered where
  below := by
    intro sid e he
    rw [h.nextSid_add]
    rw [h.get?_add] at he
    split at he
    · rename_i hs
      rw [hs]
      exact Nat.lt_succ_self _
    · exact Nat.lt_succ_of_lt (h.below sid e he)
  unsent := by
    intro sid e he
    rw [h.toSubscribe_add, List.mem_append, List.mem_singleton]
    rw [h.get?_add] at he
    split at he
    · rename_i hs
      rw [← Option.some.inj he]
      exact ⟨fun _ => rfl, fun _ => .inr hs⟩
    · rename_i hs
      rw [← h.unsent sid e he, or_iff_left hs]
  waiting := by
    intro sid hmem
    rw [h.toSubscribe_add, List.mem_append, List.mem_singleton] at hmem
    rw [h.get?_add]
    by_cases hs : sid = q.nextSid
    · rw [if_pos hs]
      exact ⟨_, rfl⟩
    · rw [if_neg hs]
      exact h.waiting sid (hmem.resolve_right hs)
  bound := by
    rw [h.nextSid_add]
    exact hbound
  scheduled := fun _ => rfl

theorem remove_of_sent {sid : Nat} {e : Subscription} (he : q.entries.get? sid = some e)
    (hs : e.sent = true) : q.remove sid =
      (some (e.handler, !q.flushScheduled),
        { q with
          entries := q.entries.erase sid
          toUnsubscribe := q.toUnsubscribe ++ [sid]
          flushScheduled := true }) := by
  simp only [remove, he, hs, if_true]
  rfl

theorem remove_of_unsent {sid : Nat} {e : Subscription} (he : q.entries.get? sid = some e)
    (hs : e.sent = false) : q.remove sid =
      (some (e.handler, false),
        { q with
          entries := q.entries.erase sid
          toSubscribe := q.toSubscribe.filter (· ≠ sid) }) := by
  simp only [remove, he, hs, Bool.false_eq_true, if_false]

theorem Ordered.remove_of_sent (h : q.Ordered) {sid : Nat} {e : Subscription}
    (he : q.entries.get? sid = some e) (hs : e.sent = true) : (q.remove sid).2.Ordered := by
  have hget : ∀ sid' e', (q.entries.erase sid).get? sid' = some e' →
      q.entries.get? sid' = some e' := fun _ _ he' => (Table.get?_erase_eq_some.mp he').2
  rw [SubscriptionTable.remove_of_sent he hs]
  refine ⟨fun sid' e' he' => h.below sid' e' (hget sid' e' he'),
    fun sid' e' he' => h.unsent sid' e' (hget sid' e' he'), ?_, h.bound, fun _ => rfl⟩
  intro sid' hmem
  have hne : sid' ≠ sid := by
    rintro rfl
    rw [(h.unsent sid' e he).mp hmem] at hs
    cases hs
  rw [Table.get?_erase, if_neg hne]
  exact h.waiting sid' hmem

theorem Ordered.remove_of_unsent (h : q.Ordered) {sid : Nat} {e : Subscription}
    (he : q.entries.get? sid = some e) (hs : e.sent = false) : (q.remove sid).2.Ordered := by
  rw [SubscriptionTable.remove_of_unsent he hs]
  refine ⟨?below, ?unsent, ?waiting, h.bound, ?scheduled⟩
  case below =>
    exact fun sid' e' he' => h.below sid' e' (Table.get?_erase_eq_some.mp he').2
  case unsent =>
    intro sid' e' he'
    obtain ⟨hne, he'⟩ := Table.get?_erase_eq_some.mp he'
    simpa [hne] using h.unsent sid' e' he'
  case waiting =>
    intro sid' hmem
    obtain ⟨hmem, hne⟩ := List.mem_filter.mp hmem
    rw [Table.get?_erase, if_neg (by simpa using hne)]
    exact h.waiting sid' hmem
  case scheduled =>
    intro hor
    refine h.scheduled (hor.imp (fun hsub hnil => hsub ?_) id)
    rw [hnil, List.filter_nil]

/-! ## Batches -/

theorem get?_foldl_modify {α : Type} (f : α → α) (hf : ∀ a, f (f a) = f a) (sid : Nat) :
    ∀ (sids : List Nat) (es : Table Nat α),
      (sids.foldl (fun es s => es.modify s f) es).get? sid =
        if sid ∈ sids then (es.get? sid).map f else es.get? sid
  | [], es => by simp
  | s :: sids, es => by
    rw [List.foldl_cons, get?_foldl_modify f hf sid sids, Table.get?_modify]
    by_cases hs : sid = s
    · by_cases hm : sid ∈ sids <;> simp [hs, hf, Function.comp_def]
    · simp [hs]

theorem get?_takeBatch (q : SubscriptionTable) (sid : Nat) :
    q.takeBatch.2.entries.get? sid =
      if sid ∈ q.toSubscribe then (q.entries.get? sid).map fun e => { e with sent := true }
      else q.entries.get? sid :=
  get?_foldl_modify (fun e : Subscription => { e with sent := true }) (fun _ => rfl) sid _ _

theorem view_takeBatch (q : SubscriptionTable) (sid : Nat) :
    q.takeBatch.2.view sid = q.view sid := by
  rw [view, view, get?_takeBatch]
  split
  · rw [Option.map_map]
    rfl
  · rfl

theorem Ordered.takeBatch (h : q.Ordered) : q.takeBatch.2.Ordered where
  below := by
    intro sid e he
    rw [get?_takeBatch] at he
    split at he
    · obtain ⟨e0, he0, -⟩ := Option.map_eq_some_iff.mp he
      exact h.below sid e0 he0
    · exact h.below sid e he
  unsent := by
    intro sid e he
    have hnot : sid ∉ q.takeBatch.2.toSubscribe := List.not_mem_nil
    rw [get?_takeBatch] at he
    refine iff_of_false hnot ?_
    split at he
    · obtain ⟨e0, -, rfl⟩ := Option.map_eq_some_iff.mp he
      exact Bool.noConfusion
    · rename_i hout
      exact fun hs => hout ((h.unsent sid e he).mpr hs)
  waiting := fun _ hm => absurd hm List.not_mem_nil
  bound := h.bound
  scheduled := fun hor => absurd rfl (hor.elim id id)

/-- All that is to begin is in the batch. -/
theorem Ordered.sid_batch (h : q.Ordered) :
    (q.toSubscribe.filterMap q.batchEntry).map (·.sid) = q.toSubscribe := by
  have hall := h.waiting
  generalize q.toSubscribe = sids at hall ⊢
  induction sids with
  | nil => rfl
  | cons sid sids ih =>
    obtain ⟨e, he⟩ := hall sid List.mem_cons_self
    have hb : q.batchEntry sid = some ⟨e.path, sid, e.qos⟩ := by
      rw [batchEntry, he, Option.map_some]
    rw [List.filterMap_cons_some hb, List.map_cons,
      ih fun s hs => hall s (List.mem_cons_of_mem _ hs)]

/-! ## Values -/

/-- A value is kept as the last of its subscription, if there is one. -/
theorem get?_record (q : SubscriptionTable) (u : SubscriptionUpdate) (sid : Nat) :
    (q.record u).2.entries.get? sid =
      if sid = u.sid then (q.entries.get? sid).map fun e => { e with last := some u.update }
      else q.entries.get? sid := by
  unfold record
  cases he : q.entries.get? u.sid with
  | none =>
    dsimp only
    split
    · rename_i hs
      rw [hs, he]
      rfl
    · rfl
  | some e => exact Table.get?_modify _ _ _ _

theorem record_same (q : SubscriptionTable) (u : SubscriptionUpdate) :
    (q.record u).2 = { q with entries := (q.record u).2.entries } := by
  unfold record
  split <;> rfl

theorem view_record (q : SubscriptionTable) (u : SubscriptionUpdate) (sid : Nat) :
    (q.record u).2.view sid = q.view sid := by
  rw [view, view, get?_record]
  split
  · rw [Option.map_map]
    rfl
  · rfl

theorem asked_record (q : SubscriptionTable) (u : SubscriptionUpdate) (sid : Nat)
    (x : Option (String × Nat)) : (q.record u).2.asked sid x = q.asked sid x := by
  have h1 : (q.record u).2.toUnsubscribe = q.toUnsubscribe := by rw [record_same]
  have h2 : (q.record u).2.toSubscribe = q.toSubscribe := by rw [record_same]
  rw [asked, asked, view_record, h1, h2]

theorem Ordered.record (h : q.Ordered) (u : SubscriptionUpdate) : (q.record u).2.Ordered := by
  have hget : ∀ sid e, (q.record u).2.entries.get? sid = some e →
      ∃ e0, q.entries.get? sid = some e0 ∧ e.sent = e0.sent := by
    intro sid e he
    rw [get?_record] at he
    split at he
    · obtain ⟨e0, he0, rfl⟩ := Option.map_eq_some_iff.mp he
      exact ⟨e0, he0, rfl⟩
    · exact ⟨e, he, rfl⟩
  have hsame := record_same q u
  refine ⟨?below, ?unsent, ?waiting, ?bound, ?scheduled⟩
  case below =>
    intro sid e he
    obtain ⟨e0, he0, -⟩ := hget sid e he
    rw [hsame]
    exact h.below sid e0 he0
  case unsent =>
    intro sid e he
    obtain ⟨e0, he0, hsent⟩ := hget sid e he
    rw [hsent, hsame]
    exact h.unsent sid e0 he0
  case waiting =>
    intro sid hmem
    rw [hsame] at hmem
    obtain ⟨e, he⟩ := h.waiting sid hmem
    rw [get?_record, he]
    split
    · exact ⟨_, rfl⟩
    · exact ⟨e, rfl⟩
  case bound =>
    rw [hsame]
    exact h.bound
  case scheduled =>
    rw [hsame]
    exact h.scheduled

end SubscriptionTable
end PeerLink
