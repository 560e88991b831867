import PeerLink.Framing.Body
import Mathlib.Tactic.Common

/-! # Envelopes read back

A body is written with the members of every object in order of their keys. Readers look members up
by their keys, so that order does not matter to them.

* `Value.member?_orderMembers`: ordering keeps the last member of every key.
* `Envelope.read`: what a reader has of an envelope. A value that is null counts as missing.
* `Envelope.ofJson?_toJson`: the JSON form of an envelope reads back as that.
-/

namespace PeerLink
set_option autoImplicit false

open Json (Value)

/-! ## Members -/

namespace Json.Value

theorem sortedItems_eq_map (vs : List Value) : sortedItems vs = vs.map sorted := by
  induction vs with
  | nil => rfl
  | cons v vs ih => rw [sortedItems, ih, List.map_cons]

theorem sortedMembers_eq_map (ms : List (String × Value)) :
    sortedMembers ms = ms.map fun m => (m.1, m.2.sorted) := by
  induction ms with
  | nil => rfl
  | cons m ms ih => rw [sortedMembers, ih, List.map_cons]

theorem sorted_str (s : String) : (str s).sorted = str s := by rw [sorted] <;> simp

theorem sorted_ofNat (n : Nat) : (ofNat n).sorted = ofNat n := by rw [ofNat, sorted] <;> simp

theorem asNatBelow?_ofNat {bound n : Nat} (h : n < bound) :
    asNatBelow? bound (ofNat n) = some n := by
  rw [ofNat, asNatBelow?, if_pos h]

theorem sorted_arr (vs : List Value) : (arr vs).sorted = arr (vs.map sorted) := by
  rw [sorted, sortedItems_eq_map]

theorem sorted_obj (ms : List (String × Value)) :
    (obj ms).sorted = obj (orderMembers (ms.map fun m => (m.1, m.2.sorted))) := by
  rw [sorted, sortedMembers_eq_map]

theorem member?_nil (k : String) : member? k [] = none := rfl

theorem member?_cons (k k' : String) (v : Value) (ms : List (String × Value)) :
    member? k ((k', v) :: ms) = if k' = k then some v else member? k ms := by
  unfold member?
  by_cases h : k' = k <;> simp [h]

theorem member?_append (k : String) (ms ms' : List (String × Value)) :
    member? k (ms ++ ms') = (member? k ms).or (member? k ms') := by
  induction ms with
  | nil => simp [member?_nil]
  | cons m ms ih =>
    obtain ⟨k', v⟩ := m
    rw [List.cons_append, member?_cons, member?_cons, ih]
    split <;> simp

theorem putMember_nil (k : String) (v : Value) : putMember k v [] = [(k, v)] := by rw [putMember]

theorem putMember_after (k k' : String) (v v' : Value) (ms : List (String × Value))
    (h : k ≠ k' ∧ ¬ k < k') : putMember k v ((k', v') :: ms) = (k', v') :: putMember k v ms := by
  rw [putMember, if_neg h.1, if_neg h.2]

theorem putMember_before (k k' : String) (v v' : Value) (ms : List (String × Value))
    (h : k ≠ k' ∧ k < k') : putMember k v ((k', v') :: ms) = (k, v) :: (k', v') :: ms := by
  rw [putMember, if_neg h.1, if_pos h.2]

theorem member?_putMember (k k' : String) (v : Value) (ms : List (String × Value)) :
    member? k (putMember k' v ms) = if k' = k then some v else member? k ms := by
  induction ms with
  | nil => rw [putMember, member?_cons]
  | cons m ms ih =>
    obtain ⟨k1, v1⟩ := m
    rw [putMember]
    by_cases he : k' = k1
    · rw [if_pos he, member?_cons, member?_cons, ← he]
      split <;> rfl
    · rw [if_neg he]
      split
      · rw [member?_cons]
      · rw [member?_cons, ih, member?_cons]
        by_cases hk : k1 = k
        · rw [if_pos hk, if_neg (fun h => he (h.trans hk.symm)), if_pos hk]
        · rw [if_neg hk, if_neg hk]

/-- Of the members with one key the last stays. -/
theorem member?_orderMembers (k : String) (ms : List (String × Value)) :
    member? k (orderMembers ms) = member? k ms.reverse := by
  have fold : ∀ acc, member? k (ms.foldl (fun acc m => putMember m.1 m.2 acc) acc) =
      (member? k ms.reverse).or (member? k acc) := by
    induction ms with
    | nil => intro acc; simp [member?_nil]
    | cons m ms ih =>
      intro acc
      rw [List.foldl_cons, ih, member?_putMember, List.reverse_cons, member?_append, member?_cons,
        member?_nil]
      cases member? k ms.reverse with
      | some v => rfl
      | none => split <;> rfl
  rw [orderMembers, fold, member?_nil, Option.or_none]

theorem fields?_sorted_obj (names : List String) (ms : List (String × Value)) :
    fields? names (obj ms).sorted =
      some (names.map fun n => member? n (ms.map fun m => (m.1, m.2.sorted)).reverse) := by
  rw [sorted_obj, fields?]
  simp only [member?_orderMembers]

/-! ## Optional fields -/

theorem optional?_some {α : Type} {read : Value → Option α} {v : Value} (h : v ≠ .null) :
    optional? read (some v) = (read v).map some := by
  cases v with
  | null => exact absurd rfl h
  | _ => rfl

theorem optional?_map {α β : Type} (read : Value → Option β) (write : α → Value) (f : α → β)
    (a : Option α) (hnull : ∀ x, write x ≠ .null)
    (hread : ∀ x, a = some x → read (write x) = some (f x)) :
    optional? read (a.map write) = some (a.map f) := by
  cases a with
  | none => rfl
  | some x =>
    rw [Option.map_some, optional?_some (hnull x), hread x rfl]
    rfl

/-- What a reader has of an optional value: nothing if it is null. -/
def present : Value → Option Value
  | .null => none
  | v => some v.sorted

theorem optional?_sorted (a : Option Value) :
    optional? some (a.map sorted) = some (a.bind present) := by
  cases a with
  | none => rfl
  | some v => cases v <;> rfl

end Json.Value

theorem reverse_optionalMember {α : Type} (name : String) (a : Option α) (write : α → Value) :
    (optionalMember name a write).reverse = optionalMember name a write := by
  cases a <;> rfl

theorem map_sorted_optionalMember {α : Type} (name : String) (a : Option α) (write : α → Value) :
    ((optionalMember name a write).map fun m => (m.1, m.2.sorted)) =
      optionalMember name a fun x => (write x).sorted := by
  cases a <;> rfl

theorem member?_optionalMember {α : Type} (k name : String) (a : Option α) (write : α → Value) :
    Value.member? k (optionalMember name a write) = if name = k then a.map write else none := by
  cases a with
  | none => rw [optionalMember, Value.member?_nil, Option.map_none, ite_self]
  | some x => rw [optionalMember, Value.member?_cons, Value.member?_nil, Option.map_some]

theorem mapM_map_eq_some {α β : Type} {read : β → Option α} {write : α → β} {xs : List α}
    (h : ∀ x ∈ xs, read (write x) = some x) : (xs.map write).mapM read = some xs := by
  induction xs with
  | nil => rfl
  | cons x xs ih =>
    have hx := h x List.mem_cons_self
    have hxs := ih fun y hy => h y (List.mem_cons_of_mem x hy)
    simp [List.mapM_cons, hx, hxs]

/-! ## Records -/

namespace SubscribePath

/-- The numbers of a subscription fit into their words. -/
structure InWords (p : SubscribePath) : Prop where
  sid : p.sid < wordBound
  qos : p.qos < 256

theorem ofJson?_toJson {p : SubscribePath} (h : p.InWords) : ofJson? p.toJson.sorted = some p := by
  obtain ⟨path, sid, qos⟩ := p
  obtain ⟨hs, hq⟩ := h
  simp only at hs hq
  have hsid := Value.asNatBelow?_ofNat hs
  have hqos := Value.asNatBelow?_ofNat hq
  rw [ofJson?, toJson, Value.fields?_sorted_obj]
  by_cases hz : qos = 0
  · simp [hz, Value.member?_cons, Value.member?_nil, Value.sorted_str, Value.sorted_ofNat,
      Value.asString?, Value.default?, hsid]
  · simp [hz, Value.member?_cons, Value.member?_nil, Value.sorted_str, Value.sorted_ofNat,
      Value.asString?, Value.default?, hsid, hqos]

end SubscribePath

namespace LinkError

theorem ofJson?_toJson (e : LinkError) : ofJson? e.toJson.sorted = some e := by
  obtain ⟨kind, text, detail⟩ := e
  rw [ofJson?, toJson, Value.fields?_sorted_obj]
  cases detail with
  | none =>
    simp [optionalMember, Value.member?_cons, Value.member?_nil, Value.sorted_str, Value.asString?,
      Value.word?, Value.wordOver?, Value.default?, Value.optional?, ErrorType.ofName?_name]
  | some d =>
    simp [optionalMember, Value.member?_cons, Value.member?_nil, Value.sorted_str, Value.asString?,
      Value.word?, Value.wordOver?, Value.default?, Value.optional?, ErrorType.ofName?_name]

end LinkError

namespace Envelope

/-- The numbers in an envelope fit into their words. -/
structure InWords (e : Envelope) : Prop where
  rid : ∀ n, e.rid = some n → n < wordBound
  paths : ∀ ps, e.paths = some ps → ∀ p ∈ ps, p.InWords
  sids : ∀ ss, e.sids = some ss → ∀ n ∈ ss, n < wordBound

/-- What a reader has of an envelope. -/
def read (e : Envelope) : Envelope :=
  { e with
    params := e.params.bind Value.present
    value := e.value.bind Value.present
    updates := e.updates.map fun us => us.map Value.sorted }

/-- The fields of an envelope stand under their names. -/
theorem fields?_toJson (e : Envelope) :
    Value.fields? (fieldShapes.map (·.1)) e.toJson.sorted =
      some [e.rid.map .ofNat, e.method.map .str, e.path.map .str, e.params.map .sorted,
        e.value.map .sorted, e.permit.map (.str ·.name), e.stream.map (.str ·.name),
        e.updates.map fun us => .arr (us.map .sorted),
        e.paths.map fun ps => .arr (ps.map fun p => p.toJson.sorted),
        e.sids.map fun ss => .arr (ss.map .ofNat), e.error.map fun x => x.toJson.sorted] := by
  have harr : ∀ ss : List Nat, (Value.arr (ss.map .ofNat)).sorted = .arr (ss.map .ofNat) := by
    intro ss
    simp [Value.sorted_arr, Value.sorted_ofNat]
  simp [toJson, Value.fields?_sorted_obj, fieldShapes, map_sorted_optionalMember,
    reverse_optionalMember, Value.member?_append, member?_optionalMember, Value.sorted_str,
    Value.sorted_ofNat, Value.sorted_arr, harr, Function.comp_def]

/-- What a reader has of an envelope that was written. -/
theorem ofJson?_toJson {e : Envelope} (h : e.InWords) : ofJson? e.toJson.sorted = some e.read := by
  have hrid := Value.optional?_map (Value.asNatBelow? wordBound) Value.ofNat id e.rid
    (by simp [Value.ofNat]) fun n hn => Value.asNatBelow?_ofNat (h.rid n hn)
  have hstr : ∀ a : Option String, Value.optional? Value.asString? (a.map Value.str) = some a := by
    intro a
    cases a <;> rfl
  have hpermit : Value.optional? (fun v => v.word?.bind Permission.ofName?)
      (e.permit.map (Value.str ·.name)) = some e.permit := by
    cases e.permit with
    | none => rfl
    | some p => simp [Value.optional?, Value.word?, Value.wordOver?, Permission.ofName?_name]
  have hstream : Value.optional? (fun v => v.word?.bind StreamState.ofName?)
      (e.stream.map (Value.str ·.name)) = some e.stream := by
    cases e.stream with
    | none => rfl
    | some p => simp [Value.optional?, Value.word?, Value.wordOver?, StreamState.ofName?_name]
  have hupdates : Value.optional? Value.asArray?
      (e.updates.map fun us => Value.arr (us.map .sorted)) =
        some (e.updates.map fun us => us.map .sorted) := by
    cases e.updates <;> rfl
  have hpaths := Value.optional?_map (readList? SubscribePath.ofJson?)
    (fun ps => Value.arr (ps.map fun p => p.toJson.sorted)) id e.paths (by simp) fun ps hps => by
      rw [readList?, Value.asArray?, Option.bind_some, id_eq]
      exact mapM_map_eq_some fun p hp => SubscribePath.ofJson?_toJson (h.paths ps hps p hp)
  have hsids := Value.optional?_map (readList? (Value.asNatBelow? wordBound))
    (fun ss => Value.arr (ss.map .ofNat)) id e.sids (by simp) fun ss hss => by
      rw [readList?, Value.asArray?, Option.bind_some, id_eq]
      exact mapM_map_eq_some fun n hn => Value.asNatBelow?_ofNat (h.sids ss hss n hn)
  have herror := Value.optional?_map LinkError.ofJson? (fun x => x.toJson.sorted) id e.error
    (by simp [LinkError.toJson, Value.sorted_obj]) fun x _ => LinkError.ofJson?_toJson x
  rw [Option.map_id, id_eq] at hrid hpaths hsids herror
  rw [ofJson?, fields?_toJson]
  simp [hrid, hstr, Value.optional?_sorted, hpermit, hstream, hupdates, hpaths, hsids, herror, read]

end Envelope
end PeerLink
