/-! # Tables

* `Table κ α`: at most one entry for each key, in the order in which the keys came.
* `Table.get?`, `Table.insert`, `Table.erase`: one entry.
* `Table.toSorted`: all entries in order of their keys.
* `Table.firstFree`: a number that is not yet a key.
-/

namespace PeerLink
set_option autoImplicit false

structure Table (κ α : Type) where
  entries : List (κ × α) := []

namespace Table
variable {κ α : Type}

def size (t : Table κ α) : Nat := t.entries.length

def isEmpty (t : Table κ α) : Bool := t.entries.isEmpty

def keys (t : Table κ α) : List κ := t.entries.map (·.1)

def values (t : Table κ α) : List α := t.entries.map (·.2)

/-- All entries, those with lesser keys first. -/
def toSorted (le : κ → κ → Bool) (t : Table κ α) : List (κ × α) :=
  t.entries.mergeSort fun a b => le a.1 b.1

variable [DecidableEq κ]

def get? (t : Table κ α) (k : κ) : Option α := t.entries.lookup k

def contains (t : Table κ α) (k : κ) : Bool := (t.get? k).isSome

def erase (t : Table κ α) (k : κ) : Table κ α := ⟨t.entries.filter (·.1 ≠ k)⟩

/-- Puts an entry at the end, in place of any other with its key. -/
def insert (t : Table κ α) (k : κ) (a : α) : Table κ α := ⟨(t.erase k).entries ++ [(k, a)]⟩

def modify (t : Table κ α) (k : κ) (f : α → α) : Table κ α :=
  ⟨t.entries.map fun e => if e.1 = k then (e.1, f e.2) else e⟩

/-- The first number from `n` on that has no entry, of `fuel` numbers. -/
def firstFree (t : Table Nat α) : Nat → Nat → Nat
  | 0, n => n
  | fuel + 1, n => if t.contains n then firstFree t fuel (n + 1) else n

/-! ## Look-up -/

theorem get?_nil (k : κ) : (Table.mk ([] : List (κ × α))).get? k = none := rfl

theorem get?_cons (e : κ × α) (es : List (κ × α)) (k : κ) :
    (Table.mk (e :: es)).get? k = if k = e.1 then some e.2 else (Table.mk es).get? k := by
  rw [get?, List.lookup_cons]
  by_cases hk : k = e.1
  · rw [if_pos hk, beq_iff_eq.mpr hk]
  · rw [if_neg hk, beq_eq_false_iff_ne.mpr hk]
    rfl

theorem get?_erase (t : Table κ α) (k k' : κ) :
    (t.erase k).get? k' = if k' = k then none else t.get? k' := by
  obtain ⟨es⟩ := t
  induction es with
  | nil => simp [erase, get?_nil]
  | cons e es ih =>
    simp only [erase] at ih ⊢
    by_cases h : e.1 = k
    · rw [List.filter_cons_of_neg (by simp [h]), ih, get?_cons]
      by_cases hk : k' = k <;> simp [hk, h]
    · rw [List.filter_cons_of_pos (by simp [h]), get?_cons, get?_cons, ih]
      by_cases hk : k' = e.1
      · simp [hk, h]
      · simp [hk]

theorem get?_insert (t : Table κ α) (k k' : κ) (a : α) :
    (t.insert k a).get? k' = if k' = k then some a else t.get? k' := by
  have append : ∀ es : List (κ × α), (Table.mk (es ++ [(k, a)])).get? k' =
      ((Table.mk es).get? k').or (if k' = k then some a else none) := by
    intro es
    induction es with
    | nil => simp [get?_cons, get?_nil]
    | cons e es ih => simp only [List.cons_append, get?_cons, ih]; split <;> simp
  have erased := get?_erase t k k'
  simp only [insert, append]
  rw [show Table.mk (t.erase k).entries = t.erase k from rfl, erased]
  split <;> simp

end Table
end PeerLink
