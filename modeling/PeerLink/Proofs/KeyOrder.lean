import PeerLink.Proofs.EnvelopeJson
import Mathlib.Data.String.Basic

/-! # Values whose members stand in order of their keys

* `Value.Ordered`: the members of every object do. Such a value is already `Value.sorted`.
* `Raw.ordered_of_keep?`: so it is with all that is read from a document, whatever its shape.
-/

namespace PeerLink
set_option autoImplicit false

open Json (Value)

/-! ## Ordered members -/

namespace Json.Value

inductive Ordered : Value → Prop
  | null : Ordered .null
  | bool (b : Bool) : Ordered (.bool b)
  | num (n : Number) : Ordered (.num n)
  | str (s : String) : Ordered (.str s)
  | arr {items : List Value} (each : ∀ v ∈ items, Ordered v) : Ordered (.arr items)
  | obj {ms : List (String × Value)} (keys : (ms.map Prod.fst).Pairwise (· < ·))
      (each : ∀ m ∈ ms, Ordered m.2) : Ordered (.obj ms)

theorem putMember_of_greatest {k : String} (v : Value) {ms : List (String × Value)}
    (h : ∀ m ∈ ms, m.1 < k) : putMember k v ms = ms ++ [(k, v)] := by
  induction ms with
  | nil => rw [putMember_nil, List.nil_append]
  | cons m ms ih =>
    obtain ⟨k', v'⟩ := m
    have hk : k' < k := h (k', v') List.mem_cons_self
    rw [putMember_after _ _ _ _ _ ⟨hk.ne', not_lt_of_gt hk⟩,
      ih fun m hm => h m (List.mem_cons_of_mem _ hm), List.cons_append]

/-- Members that stand in order stay where they are. -/
theorem orderMembers_of_keys {ms : List (String × Value)}
    (h : (ms.map Prod.fst).Pairwise (· < ·)) : orderMembers ms = ms := by
  have fold : ∀ (acc ms : List (String × Value)), ((acc ++ ms).map Prod.fst).Pairwise (· < ·) →
      ms.foldl (fun acc m => putMember m.1 m.2 acc) acc = acc ++ ms := by
    intro acc ms
    induction ms generalizing acc with
    | nil => simp
    | cons m ms ih =>
      intro hacc
      have hbelow : ∀ m' ∈ acc, m'.1 < m.1 := by
        intro m' hm'
        rw [List.map_append, List.pairwise_append] at hacc
        exact hacc.2.2 m'.1 (List.mem_map_of_mem hm') m.1 (by simp)
      rw [List.foldl_cons, putMember_of_greatest m.2 hbelow, ih _ (by simpa using hacc)]
      simp
  exact fold [] ms h

theorem mem_putMember {k : String} {v : Value} {ms : List (String × Value)} {m : String × Value}
    (h : m ∈ putMember k v ms) : m = (k, v) ∨ m ∈ ms := by
  induction ms with
  | nil => simpa [putMember_nil] using h
  | cons m' ms ih =>
    obtain ⟨k', v'⟩ := m'
    rw [putMember] at h
    split_ifs at h with h1 h2
    · exact (List.mem_cons.mp h).imp_right (List.mem_cons_of_mem _)
    · exact List.mem_cons.mp h
    · rcases List.mem_cons.mp h with rfl | h
      · exact .inr List.mem_cons_self
      · exact (ih h).imp_right (List.mem_cons_of_mem _)

theorem keys_putMember {k : String} {v : Value} {ms : List (String × Value)}
    (h : (ms.map Prod.fst).Pairwise (· < ·)) :
    ((putMember k v ms).map Prod.fst).Pairwise (· < ·) := by
  induction ms with
  | nil => simp [putMember_nil]
  | cons m ms ih =>
    obtain ⟨k', v'⟩ := m
    obtain ⟨hfirst, hrest⟩ := List.pairwise_cons.mp h
    rw [putMember]
    split_ifs with h1 h2
    · subst h1
      exact h
    · refine List.pairwise_cons.mpr ⟨fun k'' hk'' => ?_, h⟩
      rcases List.mem_cons.mp hk'' with rfl | hk''
      · exact h2
      · exact h2.trans (hfirst k'' hk'')
    · refine List.pairwise_cons.mpr ⟨fun k'' hk'' => ?_, ih hrest⟩
      obtain ⟨m, hm, rfl⟩ := List.mem_map.mp hk''
      rcases mem_putMember hm with rfl | hm
      · exact lt_of_le_of_ne (not_lt.mp h2) (Ne.symm h1)
      · exact hfirst m.1 (List.mem_map_of_mem hm)

theorem Ordered.ofMembers {ms : List (String × Value)} (h : ∀ m ∈ ms, m.2.Ordered) :
    (ofMembers ms).Ordered := by
  have fold : ∀ (ms acc : List (String × Value)), (acc.map Prod.fst).Pairwise (· < ·) →
      (∀ m ∈ acc, m.2.Ordered) → (∀ m ∈ ms, m.2.Ordered) →
      (Value.obj (ms.foldl (fun acc m => putMember m.1 m.2 acc) acc)).Ordered := by
    intro ms
    induction ms with
    | nil => exact fun acc hkeys hacc _ => .obj hkeys hacc
    | cons m ms ih =>
      intro acc hkeys hacc hms
      refine ih _ (keys_putMember hkeys) (fun m' hm' => ?_) fun m' hm' =>
        hms m' (List.mem_cons_of_mem m hm')
      rcases mem_putMember hm' with rfl | hm'
      · exact hms m List.mem_cons_self
      · exact hacc m' hm'
  exact fold ms [] .nil (fun m hm => absurd hm List.not_mem_nil) h

theorem Ordered.sorted_eq {v : Value} (h : v.Ordered) : v.sorted = v := by
  induction h with
  | null => rw [sorted] <;> simp
  | bool b => rw [sorted] <;> simp
  | num n => rw [sorted] <;> simp
  | str s => exact sorted_str s
  | arr _ ih => rw [sorted_arr, List.map_congr_left ih, List.map_id']
  | @obj ms keys _ ih =>
    have hms : ms.map (fun m => (m.1, m.2.sorted)) = ms := by
      conv_rhs => rw [← List.map_id ms]
      exact List.map_congr_left fun m hm => by rw [ih m hm]; rfl
    rw [sorted_obj, hms, orderMembers_of_keys keys]

theorem Ordered.of_member? {ms : List (String × Value)} (h : (Value.obj ms).Ordered) {k : String}
    {v : Value} (hv : member? k ms = some v) : v.Ordered := by
  obtain ⟨m, hm, rfl⟩ := Option.map_eq_some_iff.mp hv
  cases h with
  | obj _ each => exact each m (List.mem_of_find?_eq_some hm)

theorem Ordered.of_fields? {names : List String} {v : Value} (h : v.Ordered)
    {fs : List (Option Value)} (hfs : v.fields? names = some fs) :
    ∀ w, some w ∈ fs → w.Ordered := by
  intro w hw
  unfold fields? at hfs
  split at hfs
  · rename_i ms
    rw [← Option.some.inj hfs] at hw
    obtain ⟨n, -, hn⟩ := List.mem_map.mp hw
    exact h.of_member? hn
  · split at hfs
    · rw [← Option.some.inj hfs] at hw
      rcases List.mem_append.mp hw with hw | hw
      · obtain ⟨u, hu, huw⟩ := List.mem_map.mp hw
        cases h with
        | arr each => exact Option.some.inj huw ▸ each u hu
      · cases (List.eq_of_mem_replicate hw)
    · cases hfs
  · cases hfs

end Json.Value

/-! ## Documents -/

namespace Json.Raw
open Value

theorem keep?_array {shape : Shape} {room : Nat} {rs : List Raw} {v : Value}
    (h : keep? shape room (.array rs) = some v) :
    ∃ vs, v = .arr vs ∧ ((∃ item room, keepItems? item room rs = some vs) ∨
      ∃ names room, keepRow? names room rs = some vs) := by
  cases room with
  | zero => simp [keep?] at h
  | succ room =>
    cases shape with
    | list item =>
      rw [keep?] at h
      obtain ⟨vs, hvs, rfl⟩ := Option.map_eq_some_iff.mp h
      exact ⟨vs, rfl, .inl ⟨_, _, hvs⟩⟩
    | record all names =>
      rw [keep?] at h
      obtain ⟨vs, hvs, rfl⟩ := Option.map_eq_some_iff.mp h
      exact ⟨vs, rfl, .inr ⟨_, _, hvs⟩⟩
    | any | word =>
      rw [keep?] at h <;> try (intros; contradiction)
      obtain ⟨vs, hvs, rfl⟩ := Option.map_eq_some_iff.mp h
      exact ⟨vs, rfl, .inl ⟨_, _, hvs⟩⟩

theorem keep?_object {shape : Shape} {room : Nat} {ms : List (List StringPart × Raw)} {v : Value}
    (h : keep? shape room (.object ms) = some v) :
    ∃ kept, v = ofMembers kept ∧
      ∃ all names room, keepMembers? all names room ms = some kept := by
  cases room with
  | zero => simp [keep?] at h
  | succ room =>
    cases shape with
    | record all names =>
      rw [keep?] at h
      split at h
      · cases h
      · rename_i kept hkept
        split at h
        · exact ⟨kept, (Option.some.inj h).symm, _, _, _, hkept⟩
        · cases h
    | word =>
      rw [keep?] at h
      split at h
      · rename_i m hm
        exact ⟨[m], (Option.some.inj h).symm, _, _, _, hm⟩
      · cases h
    | any | list =>
      rw [keep?] at h <;> try (intros; contradiction)
      obtain ⟨kept, hkept, rfl⟩ := Option.map_eq_some_iff.mp h
      exact ⟨kept, rfl, _, _, _, hkept⟩

mutual
theorem ordered_of_keep? : ∀ (r : Raw) {shape : Shape} {room : Nat} {v : Value},
    keep? shape room r = some v → v.Ordered
  | .null, _, _, _, h => by
    rw [keep?] at h
    exact Option.some.inj h ▸ .null
  | .bool b, _, _, _, h => by
    rw [keep?] at h
    exact Option.some.inj h ▸ .bool b
  | .number n, _, _, _, h => by
    rw [keep?] at h
    obtain ⟨x, -, rfl⟩ := Option.map_eq_some_iff.mp h
    exact .num x
  | .string ps, _, _, _, h => by
    rw [keep?] at h
    obtain ⟨s, -, rfl⟩ := Option.map_eq_some_iff.mp h
    exact .str s
  | .array rs, _, _, _, h => by
    obtain ⟨vs, rfl, ⟨item, room, hvs⟩ | ⟨names, room, hvs⟩⟩ := keep?_array h
    · exact .arr (ordered_of_keepItems? rs hvs)
    · exact .arr (ordered_of_keepRow? rs hvs)
  | .object ms, _, _, _, h => by
    obtain ⟨kept, rfl, all, names, room, hkept⟩ := keep?_object h
    exact .ofMembers (ordered_of_keepMembers? ms hkept)

theorem ordered_of_keepItems? : ∀ (rs : List Raw) {item : Shape} {room : Nat} {vs : List Value},
    keepItems? item room rs = some vs → ∀ v ∈ vs, v.Ordered
  | [], _, _, _, h => by
    rw [keepItems?] at h
    cases h
    exact fun v hv => absurd hv List.not_mem_nil
  | r :: rs, _, _, _, h => by
    rw [keepItems?] at h
    split at h
    · rename_i v vs hv hvs
      cases h
      exact List.forall_mem_cons.mpr ⟨ordered_of_keep? r hv, ordered_of_keepItems? rs hvs⟩
    · cases h

theorem ordered_of_keepRow? : ∀ (rs : List Raw) {names : List (String × Shape)} {room : Nat}
    {vs : List Value}, keepRow? names room rs = some vs → ∀ v ∈ vs, v.Ordered
  | [], _, _, _, h => by
    rw [keepRow?] at h
    cases h
    exact fun v hv => absurd hv List.not_mem_nil
  | r :: rs, [], _, _, h => by
    rw [keepRow?] at h
    cases h
  | r :: rs, (_, _) :: _, _, _, h => by
    rw [keepRow?] at h
    split at h
    · rename_i v vs hv hvs
      cases h
      exact List.forall_mem_cons.mpr ⟨ordered_of_keep? r hv, ordered_of_keepRow? rs hvs⟩
    · cases h

theorem ordered_of_keepMembers? : ∀ (ms : List (List StringPart × Raw)) {all : Bool}
    {names : List (String × Shape)} {room : Nat} {kept : List (String × Value)},
    keepMembers? all names room ms = some kept → ∀ m ∈ kept, m.2.Ordered
  | [], _, _, _, _, h => by
    rw [keepMembers?] at h
    cases h
    exact fun m hm => absurd hm List.not_mem_nil
  | (ps, r) :: ms, _, _, _, _, h => by
    rw [keepMembers?] at h
    split at h
    · rename_i k kept hk hkept
      have hrest := ordered_of_keepMembers? ms hkept
      split at h
      · obtain ⟨v, hv, rfl⟩ := Option.map_eq_some_iff.mp h
        exact List.forall_mem_cons.mpr ⟨ordered_of_keep? r hv, hrest⟩
      · split at h
        · obtain ⟨v, hv, rfl⟩ := Option.map_eq_some_iff.mp h
          exact List.forall_mem_cons.mpr ⟨ordered_of_keep? r hv, hrest⟩
        · cases h
          exact hrest
    · cases h
end

end Json.Raw

theorem Json.Shape.ordered_of_read? {shape : Json.Shape} {s : Bytes} {v : Value}
    (h : shape.read? s = some v) : v.Ordered := by
  obtain ⟨r, -, hr⟩ := Option.bind_eq_some_iff.mp h
  exact Json.Raw.ordered_of_keep? r hr

end PeerLink
