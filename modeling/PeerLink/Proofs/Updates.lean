import PeerLink.Requester.Subscriptions
import PeerLink.Responder.Registry
import PeerLink.Proofs.EnvelopeJson

/-! # Values on their way to the holder of a subscription

* `ValueUpdate.Travels`: what has to hold of a value so that it comes as it went.
* `SubscriptionUpdate.ofEntry?_toJson`: an entry of a batch of values reads back.
* `latest`: the value that the holder of a subscription will have once all that is on its way has
  come.
* `Registry.about_replaceQueued`: with quality 0 the newest value takes the place of the one that
  waits.
-/

namespace PeerLink
set_option autoImplicit false

open Json (Value)

/-! ## Entries read back -/

/-- The members of objects stand in order of their keys, and the text of the time reads back. -/
structure ValueUpdate.Travels (u : ValueUpdate) : Prop where
  sorted : u.value.sorted = u.value
  time : Timestamp.parse? u.time.text = some u.time

namespace SubscriptionUpdate

/-- The members of an update in order of their keys. -/
theorem orderMembers_update (sid value status ts : Value) :
    Value.orderMembers [("sid", sid), ("value", value), ("status", status), ("ts", ts)] =
      [("sid", sid), ("status", status), ("ts", ts), ("value", value)] := by
  simp only [Value.orderMembers, List.foldl_cons, List.foldl_nil, Value.putMember_nil]
  rw [Value.putMember_after "value" "sid" _ _ _ (by decide), Value.putMember_nil,
    Value.putMember_after "status" "sid" _ _ _ (by decide),
    Value.putMember_before "status" "value" _ _ _ (by decide),
    Value.putMember_after "ts" "sid" _ _ _ (by decide),
    Value.putMember_after "ts" "status" _ _ _ (by decide),
    Value.putMember_before "ts" "value" _ _ _ (by decide)]

theorem orderMembers_ordered (sid value status ts : Value) :
    Value.orderMembers [("sid", sid), ("status", status), ("ts", ts), ("value", value)] =
      [("sid", sid), ("status", status), ("ts", ts), ("value", value)] := by
  simp only [Value.orderMembers, List.foldl_cons, List.foldl_nil, Value.putMember_nil]
  rw [Value.putMember_after "status" "sid" _ _ _ (by decide), Value.putMember_nil,
    Value.putMember_after "ts" "sid" _ _ _ (by decide),
    Value.putMember_after "ts" "status" _ _ _ (by decide), Value.putMember_nil,
    Value.putMember_after "value" "sid" _ _ _ (by decide),
    Value.putMember_after "value" "status" _ _ _ (by decide),
    Value.putMember_after "value" "ts" _ _ _ (by decide), Value.putMember_nil]

theorem sorted_toJson {u : SubscriptionUpdate} (h : u.update.Travels) :
    u.toJson.sorted = .obj [("sid", .ofNat u.sid), ("status", .str u.update.status.name),
      ("ts", .str u.update.time.text), ("value", u.update.value)] := by
  simp only [toJson, Value.sorted_obj, List.map_cons, List.map_nil, Value.sorted_str,
    Value.sorted_ofNat, h.sorted, orderMembers_update]

theorem sorted_sorted_toJson {u : SubscriptionUpdate} (h : u.update.Travels) :
    u.toJson.sorted.sorted = u.toJson.sorted := by
  simp only [sorted_toJson h, Value.sorted_obj, List.map_cons, List.map_nil, Value.sorted_str,
    Value.sorted_ofNat, h.sorted, orderMembers_ordered]

theorem ofEntry?_toJson {u : SubscriptionUpdate} (h : u.update.Travels) (hs : u.sid < wordBound)
    (now : Timestamp) : ofEntry? now u.toJson.sorted.sorted = some u := by
  obtain ⟨sid, value, status, time⟩ := u
  have hsid := Value.asNatBelow?_ofNat hs
  have htime := h.time
  simp only at hsid htime
  rw [sorted_sorted_toJson h, sorted_toJson h]
  simp [ ofEntry?, ofJson?, Value.member?_cons, hsid, htime, Value.default?, Value.wordOver?,
    Value.asString?, ValueStatus.ofName?_name]

end SubscriptionUpdate

/-! ## The newest value -/

/-- The updates of one subscription. -/
def about (sid : Nat) (us : List SubscriptionUpdate) : List SubscriptionUpdate :=
  us.filter (·.sid = sid)

/-- The value that the holder of a subscription will have last, once updates have come. -/
def latest (last : Option ValueUpdate) (sid : Nat) (us : List SubscriptionUpdate) :
    Option ValueUpdate :=
  match (about sid us).getLast? with
  | some u => some u.update
  | none => last

theorem about_append (sid : Nat) (us us' : List SubscriptionUpdate) :
    about sid (us ++ us') = about sid us ++ about sid us' := List.filter_append ..

theorem about_eq_nil {sid : Nat} {us : List SubscriptionUpdate} :
    about sid us = [] ↔ ∀ u ∈ us, u.sid ≠ sid := by
  simp [about, List.filter_eq_nil_iff]

theorem latest_nil (last : Option ValueUpdate) (sid : Nat) : latest last sid [] = last := rfl

theorem latest_congr {sid : Nat} {us us' : List SubscriptionUpdate}
    (h : about sid us = about sid us') (last : Option ValueUpdate) :
    latest last sid us = latest last sid us' := by
  rw [latest, latest, h]

theorem latest_of_about_nil {sid : Nat} {us : List SubscriptionUpdate} (h : about sid us = [])
    (last : Option ValueUpdate) : latest last sid us = last := by
  rw [latest, h]
  rfl

theorem latest_of_about_snoc {sid : Nat} {us pre : List SubscriptionUpdate} {u : ValueUpdate}
    (h : about sid us = pre ++ [⟨sid, u⟩]) (last : Option ValueUpdate) :
    latest last sid us = some u := by
  rw [latest, h, List.getLast?_concat]

/-- An update is kept as the last one. -/
theorem latest_cons (last : Option ValueUpdate) (u : SubscriptionUpdate)
    (us : List SubscriptionUpdate) :
    latest last u.sid (u :: us) = latest (some u.update) u.sid us := by
  have h : about u.sid (u :: us) = u :: about u.sid us :=
    List.filter_cons_of_pos (decide_eq_true rfl)
  rw [latest, latest, h, List.getLast?_cons]
  cases (about u.sid us).getLast? <;> rfl

theorem about_cons_other {sid : Nat} {u : SubscriptionUpdate} (h : u.sid ≠ sid)
    (us : List SubscriptionUpdate) : about sid (u :: us) = about sid us :=
  List.filter_cons_of_neg (by simpa using h)

/-! ## Values that wait -/

namespace Registry

theorem about_replaceQueued_other {sid : Nat} {u : SubscriptionUpdate} (h : u.sid ≠ sid)
    (qs : List SubscriptionUpdate) : about sid (replaceQueued u qs) = about sid qs := by
  induction qs with
  | nil => exact about_cons_other h []
  | cons q qs ih =>
    rw [replaceQueued]
    by_cases hq : q.sid = u.sid
    · rw [if_pos hq, about_cons_other h, about_cons_other (hq ▸ h)]
    · rw [if_neg hq, about, about, List.filter_cons, List.filter_cons]
      have ih' : (replaceQueued u qs).filter (·.sid = sid) = qs.filter (·.sid = sid) := ih
      rw [ih']

/-- If no more than one value of the subscription waits, it is the newest from now on. -/
theorem about_replaceQueued {u : SubscriptionUpdate} {qs : List SubscriptionUpdate}
    (h : (about u.sid qs).length ≤ 1) : about u.sid (replaceQueued u qs) = [u] := by
  induction qs with
  | nil => simp [replaceQueued, about]
  | cons q qs ih =>
    rw [replaceQueued]
    by_cases hq : q.sid = u.sid
    · have hcons : about u.sid (q :: qs) = q :: about u.sid qs :=
        List.filter_cons_of_pos (decide_eq_true hq)
      rw [hcons, List.length_cons] at h
      have hnil : about u.sid qs = [] := List.length_eq_zero_iff.mp (by omega)
      have hu : about u.sid (u :: qs) = u :: about u.sid qs :=
        List.filter_cons_of_pos (decide_eq_true rfl)
      rw [if_pos hq, hu, hnil]
    · rw [about_cons_other hq] at h
      rw [if_neg hq, about_cons_other hq]
      exact ih h

theorem mem_replaceQueued {u v : SubscriptionUpdate} {qs : List SubscriptionUpdate}
    (h : v ∈ replaceQueued u qs) : v = u ∨ v ∈ qs := by
  induction qs with
  | nil => exact .inl (List.mem_singleton.mp h)
  | cons q qs ih =>
    rw [replaceQueued] at h
    split at h
    · exact (List.mem_cons.mp h).imp id fun h => List.mem_cons_of_mem q h
    · rcases List.mem_cons.mp h with rfl | h
      · exact .inr List.mem_cons_self
      · exact (ih h).imp id fun h => List.mem_cons_of_mem q h

end Registry
end PeerLink
