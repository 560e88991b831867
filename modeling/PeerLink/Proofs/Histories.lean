import Mathlib.Data.List.Basic

/-! # Histories

A history is a list that grows at its end.

* `Each`: what holds of each entry, given those before it.
* `Each.snoc`: what has happened stays as it was when more happens.
-/

namespace PeerLink
set_option autoImplicit false

variable {α : Type}

/-- An entry of a longer list is the last one, or stands in the list before. -/
theorem split_snoc {t pre post : List α} {a b : α} (h : t ++ [a] = pre ++ b :: post) :
    (pre = t ∧ b = a) ∨ ∃ post', t = pre ++ b :: post' := by
  obtain rfl | ⟨post', z, rfl⟩ := post.eq_nil_or_concat
  · obtain ⟨rfl, hb⟩ := List.append_inj' h rfl
    exact .inl ⟨rfl, (List.singleton_inj.mp hb).symm⟩
  · rw [List.concat_eq_append, ← List.cons_append, ← List.append_assoc] at h
    exact .inr ⟨post', (List.append_inj' h rfl).1⟩

/-- What holds of each entry, given those before it. -/
def Each (P : List α → α → Prop) (t : List α) : Prop :=
  ∀ pre a post, t = pre ++ a :: post → P pre a

variable {P : List α → α → Prop} {t : List α}

theorem Each.nil : Each P [] := fun pre a post h => absurd h.symm (by simp)

theorem Each.of_append {t' : List α} (h : Each P (t ++ t')) : Each P t := by
  intro pre a post hsplit
  refine h pre a (post ++ t') ?_
  rw [hsplit, List.append_assoc, List.cons_append]

theorem Each.snoc (h : Each P t) {a : α} (ha : P t a) : Each P (t ++ [a]) := by
  intro pre b post hsplit
  obtain ⟨rfl, rfl⟩ | ⟨post', ht⟩ := split_snoc hsplit
  · exact ha
  · exact h pre b post' ht

end PeerLink
