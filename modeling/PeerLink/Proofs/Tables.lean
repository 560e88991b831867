import PeerLink.Table
import Mathlib.Data.List.Nodup
import Mathlib.Data.List.Perm.Subperm

/-! # Entries of a table

* `Table.Distinct`: no two entries have the same key. All operations keep it.
* `Table.mem_entries`: of such a table, the entries are what look-up finds.
* `Table.get?_firstFree`: the number that is found for a new entry is free.
-/

namespace PeerLink.Table
set_option autoImplicit false

variable {κ α : Type}

/-- No two entries have the same key. -/
def Distinct (t : Table κ α) : Prop := t.keys.Nodup

theorem distinct_nil : ({} : Table κ α).Distinct := List.nodup_nil

theorem mem_toSorted {le : κ → κ → Bool} {t : Table κ α} {e : κ × α} :
    e ∈ t.toSorted le ↔ e ∈ t.entries := List.mem_mergeSort

variable [DecidableEq κ]

theorem mem_keys {t : Table κ α} {k : κ} : k ∈ t.keys ↔ t.contains k = true := by
  obtain ⟨es⟩ := t
  induction es with
  | nil => simp [keys, contains, get?_nil]
  | cons e es ih =>
    simp only [keys, contains, List.map_cons, List.mem_cons, get?_cons] at ih ⊢
    by_cases h : k = e.1
    · simp [h]
    · simp [h, ih]

theorem get?_eq_none {t : Table κ α} {k : κ} : t.get? k = none ↔ k ∉ t.keys := by
  rw [mem_keys, contains, Bool.not_eq_true, Option.isSome_eq_false_iff, Option.isNone_iff_eq_none]

theorem get?_empty_ne {k : κ} {a : α} : ({} : Table κ α).get? k ≠ some a := nofun

theorem get?_erase_eq_some {t : Table κ α} {k k' : κ} {a : α} :
    (t.erase k).get? k' = some a ↔ k' ≠ k ∧ t.get? k' = some a := by
  rw [get?_erase]
  by_cases h : k' = k
  · simp [h]
  · simp [h]

theorem keys_erase (t : Table κ α) (k : κ) : (t.erase k).keys = t.keys.filter (· ≠ k) := by
  simp only [keys, erase, List.filter_map]
  rfl

theorem keys_insert (t : Table κ α) (k : κ) (a : α) :
    (t.insert k a).keys = t.keys.filter (· ≠ k) ++ [k] := by
  rw [← keys_erase]
  simp [keys, insert]

theorem keys_modify (t : Table κ α) (k : κ) (f : α → α) : (t.modify k f).keys = t.keys := by
  simp only [keys, modify, List.map_map]
  refine List.map_congr_left fun e _ => ?_
  simp only [Function.comp_apply]
  split <;> rfl

theorem get?_modify (t : Table κ α) (k k' : κ) (f : α → α) :
    (t.modify k f).get? k' = if k' = k then (t.get? k').map f else t.get? k' := by
  obtain ⟨es⟩ := t
  induction es with
  | nil => simp [modify, get?_nil]
  | cons e es ih =>
    simp only [modify] at ih ⊢
    rw [List.map_cons, get?_cons, get?_cons, ih]
    by_cases he : e.1 = k
    · by_cases hk : k' = k <;> simp [he, hk]
    · by_cases hk : k' = e.1
      · simp [hk, he]
      · simp [hk, he]

/-! ## Distinct keys -/

theorem Distinct.erase {t : Table κ α} (h : t.Distinct) (k : κ) : (t.erase k).Distinct := by
  rw [Distinct, keys_erase]
  exact h.filter _

theorem Distinct.insert {t : Table κ α} (h : t.Distinct) (k : κ) (a : α) :
    (t.insert k a).Distinct := by
  rw [Distinct, keys_insert]
  refine List.nodup_append.mpr ⟨h.filter _, List.nodup_singleton k, fun x hx y hy => ?_⟩
  rw [List.mem_singleton.mp hy]
  simpa using (List.mem_filter.mp hx).2

theorem Distinct.modify {t : Table κ α} (h : t.Distinct) (k : κ) (f : α → α) :
    (t.modify k f).Distinct := by
  rwa [Distinct, keys_modify]

/-- What look-up finds is an entry, and every entry is found. -/
theorem mem_entries {t : Table κ α} (h : t.Distinct) {k : κ} {a : α} :
    (k, a) ∈ t.entries ↔ t.get? k = some a := by
  obtain ⟨es⟩ := t
  induction es with
  | nil => simp [get?_nil]
  | cons e es ih =>
    obtain ⟨hnot, hnodup⟩ := List.nodup_cons.mp h
    rw [List.mem_cons, get?_cons, ih hnodup]
    by_cases hk : k = e.1
    · have hnone : (Table.mk es).get? k = none := get?_eq_none.mpr (hk ▸ hnot)
      rw [hnone, if_pos hk]
      constructor
      · rintro (rfl | hf)
        · rfl
        · cases hf
      · intro ha
        exact .inl (Prod.ext hk (Option.some.inj ha).symm)
    · rw [if_neg hk]
      exact ⟨fun h => h.resolve_left fun he => hk (congrArg Prod.fst he), .inr⟩

/-- An entry that is found is one of the entries, and the others are those that are left when it is
erased. -/
theorem perm_erase {t : Table κ α} (h : t.Distinct) {k : κ} {a : α} (hk : t.get? k = some a) :
    t.entries.Perm ((k, a) :: (t.erase k).entries) := by
  obtain ⟨es⟩ := t
  induction es with
  | nil => cases hk
  | cons e es ih =>
    obtain ⟨hnot, hnodup⟩ := List.nodup_cons.mp h
    rw [get?_cons] at hk
    by_cases he : k = e.1
    · rw [if_pos he] at hk
      have hentry : (k, a) = e := Prod.ext he (Option.some.inj hk).symm
      have hrest : (Table.erase ⟨e :: es⟩ k).entries = es := by
        simp only [erase]
        rw [List.filter_cons_of_neg (by simp [he])]
        refine List.filter_eq_self.mpr fun x hx => decide_eq_true fun hkey => hnot ?_
        show e.1 ∈ es.map (·.1)
        rw [← he, ← hkey]
        exact List.mem_map_of_mem hx
      rw [hrest, hentry]
    · rw [if_neg he] at hk
      have hrest : (Table.erase ⟨e :: es⟩ k).entries = e :: (Table.erase ⟨es⟩ k).entries := by
        simp only [erase]
        rw [List.filter_cons_of_pos (by simpa using Ne.symm he)]
      rw [hrest]
      exact ((ih hnodup hk).cons e).trans (.swap _ _ _)

theorem entries_insert {t : Table κ α} {k : κ} (hk : t.get? k = none) (a : α) :
    (t.insert k a).entries = t.entries ++ [(k, a)] := by
  have hsame : (t.erase k).entries = t.entries := by
    refine List.filter_eq_self.mpr fun e he => decide_eq_true fun hkey => ?_
    exact get?_eq_none.mp hk (hkey ▸ List.mem_map_of_mem he)
  rw [insert, hsame]

/-! ## A free number -/

theorem le_firstFree (t : Table Nat α) : ∀ fuel n : Nat, n ≤ t.firstFree fuel n
  | 0, n => Nat.le_refl n
  | fuel + 1, n => by
    rw [firstFree]
    split
    · exact Nat.le_of_succ_le (le_firstFree t fuel (n + 1))
    · exact Nat.le_refl n

/-- Either a number is found, or all that were tried are taken. -/
theorem firstFree_spec (t : Table Nat α) : ∀ fuel n : Nat,
    t.get? (t.firstFree fuel n) = none ∨ ∀ k ∈ List.range' n fuel, k ∈ t.keys
  | 0, n => .inr fun k hk => absurd hk List.not_mem_nil
  | fuel + 1, n => by
    rw [firstFree]
    cases hc : t.contains n with
    | false =>
      left
      rw [if_neg Bool.false_ne_true]
      refine get?_eq_none.mpr fun hm => ?_
      rw [mem_keys.mp hm] at hc
      cases hc
    | true =>
      refine (firstFree_spec t fuel (n + 1)).imp id fun h k hk => ?_
      rw [List.range'_succ, List.mem_cons] at hk
      exact hk.elim (fun he => he ▸ mem_keys.mpr hc) (h k)

/-- There are not as many entries as numbers that are tried. -/
theorem get?_firstFree (t : Table Nat α) (n : Nat) :
    t.get? (t.firstFree (t.size + 1) n) = none := by
  refine (firstFree_spec t (t.size + 1) n).resolve_right fun htaken => ?_
  have hsub : (List.range' n (t.size + 1)).Subperm t.keys :=
    List.subperm_of_subset List.nodup_range' htaken
  have hlen := hsub.length_le
  rw [List.length_range', keys, List.length_map, size] at hlen
  omega

end PeerLink.Table
