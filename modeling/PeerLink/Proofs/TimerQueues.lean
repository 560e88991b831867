import PeerLink.Proofs.Tables
import PeerLink.Timer.Queue

/-! # Queues of timers, kept in order

* `TimerQueue.Sound`: the deadlines are those of the timers that wait, each once and in order.
* `TimerQueue.Sound.insert`, `TimerQueue.Sound.cancel`, `TimerQueue.Sound.takeDue`: the queue stays
  so.
* `TimerQueue.Sound.due_spec`: what is detached is what waits and is due, in the order of the
  deadlines; the rest stays.
-/

namespace PeerLink
set_option autoImplicit false

/-! ## Deadlines -/

namespace Deadline

/-- Before another one: earlier, or of an older timer at the same time. -/
def Before (a b : Deadline) : Prop := a.time < b.time ∨ a.time = b.time ∧ a.id < b.id

theorem Before.irrefl (a : Deadline) : ¬ a.Before a := by simp [Before]

theorem Before.trans {a b c : Deadline} (h : a.Before b) (h' : b.Before c) : a.Before c := by
  unfold Before at h h' ⊢
  omega

theorem Before.time_le {a b : Deadline} (h : a.Before b) : a.time ≤ b.time := by
  unfold Before at h
  omega

theorem le_iff {a b : Deadline} : a.le b = true ↔ a.Before b ∨ a = b := by
  obtain ⟨s, i⟩ := a
  obtain ⟨t, j⟩ := b
  simp only [le, Before, Bool.or_eq_true, Bool.and_eq_true, decide_eq_true_eq, beq_iff_eq, mk.injEq]
  omega

theorem before_of_not_le {a b : Deadline} (h : ¬ a.le b = true) : b.Before a := by
  obtain ⟨s, i⟩ := a
  obtain ⟨t, j⟩ := b
  simp only [le, Before, Bool.or_eq_true, Bool.and_eq_true, decide_eq_true_eq, beq_iff_eq] at h ⊢
  omega

end Deadline

/-- Deadlines in order, each once. -/
def Deadline.Ordered (ds : List Deadline) : Prop := ds.Pairwise Deadline.Before

theorem Deadline.Ordered.nodup {ds : List Deadline} (h : Deadline.Ordered ds) : ds.Nodup := by
  refine List.Pairwise.imp (fun {a b} hab he => ?_) h
  subst he
  exact hab.irrefl

/-- Of deadlines in order, the due ones come first. -/
theorem Deadline.Ordered.takeWhile_eq {ds : List Deadline} (h : Deadline.Ordered ds) (now : Nat) :
    ds.takeWhile (·.time ≤ now) = ds.filter (·.time ≤ now) ∧
      ds.dropWhile (·.time ≤ now) = ds.filter (now < ·.time) := by
  induction ds with
  | nil => exact ⟨rfl, rfl⟩
  | cons d ds ih =>
    obtain ⟨hd, hds⟩ := List.pairwise_cons.mp h
    by_cases hdue : d.time ≤ now
    · obtain ⟨htake, hdrop⟩ := ih hds
      simp [hdue, htake, hdrop]
    · have hlate : ∀ e ∈ d :: ds, now < e.time := by
        intro e he
        obtain rfl | he := List.mem_cons.mp he
        · exact Nat.not_le.mp hdue
        · exact Nat.lt_of_lt_of_le (Nat.not_le.mp hdue) (hd e he).time_le
      rw [List.takeWhile_cons_of_neg (by simpa using hdue),
        List.dropWhile_cons_of_neg (by simpa using hdue)]
      constructor
      · exact (List.filter_eq_nil_iff.mpr fun e he => by simpa using hlate e he).symm
      · exact (List.filter_eq_self.mpr fun e he => by simpa using hlate e he).symm

namespace TimerQueue
variable {τ : Type}

theorem mem_insertDeadline {d e : Deadline} : ∀ {ds : List Deadline},
    e ∈ insertDeadline d ds ↔ e = d ∨ e ∈ ds
  | [] => by simp [insertDeadline]
  | x :: xs => by
    rw [insertDeadline]
    split
    · simp
    · simp [mem_insertDeadline, or_left_comm]

theorem ordered_insertDeadline {d : Deadline} :
    ∀ {ds : List Deadline}, Deadline.Ordered ds → d ∉ ds → Deadline.Ordered (insertDeadline d ds)
  | [], _, _ => List.pairwise_singleton _ _
  | x :: xs, h, hd => by
    obtain ⟨hx, hxs⟩ := List.pairwise_cons.mp h
    obtain ⟨hne, hnot⟩ := not_or.mp (mt List.mem_cons.mpr hd)
    rw [TimerQueue.insertDeadline]
    split
    · rename_i hle
      have hbefore := (Deadline.le_iff.mp hle).resolve_right hne
      refine List.pairwise_cons.mpr ⟨fun e he => ?_, h⟩
      obtain rfl | he := List.mem_cons.mp he
      · exact hbefore
      · exact hbefore.trans (hx e he)
    · rename_i hle
      refine List.pairwise_cons.mpr ⟨fun e he => ?_, ordered_insertDeadline hxs hnot⟩
      obtain rfl | he := mem_insertDeadline.mp he
      · exact Deadline.before_of_not_le hle
      · exact hx e he

/-! ## Sound queues -/

/-- The deadlines of a queue are those of the timers that wait in it. -/
structure Sound (q : TimerQueue τ) : Prop where
  ordered : Deadline.Ordered q.deadlines
  mem : ∀ d, d ∈ q.deadlines ↔ ∃ t, q.waiting.get? d.id = some t ∧ t.deadline = d
  named : ∀ k t, q.waiting.get? k = some t → t.id = k
  waiting : q.waiting.Distinct
  running : q.running.Distinct

variable {q : TimerQueue τ} {t : Timer τ}

theorem sound_empty : ({} : TimerQueue τ).Sound where
  ordered := List.Pairwise.nil
  mem d := by simpa using fun t ht => absurd ht Table.get?_empty_ne
  named _ _ h := absurd h Table.get?_empty_ne
  waiting := Table.distinct_nil
  running := Table.distinct_nil

theorem Sound.insert (h : q.Sound) (hfree : q.waiting.get? t.id = none) : (q.insert t).Sound where
  ordered := by
    refine ordered_insertDeadline h.ordered fun hmem => ?_
    obtain ⟨u, hu, -⟩ := (h.mem t.deadline).mp hmem
    exact absurd (hfree.symm.trans hu) nofun
  mem d := by
    simp only [TimerQueue.insert, mem_insertDeadline, Table.get?_insert, h.mem]
    by_cases hd : d.id = t.id
    · rw [hd, hfree]
      simp [eq_comm]
    · have hne : d ≠ t.deadline := fun he => hd (congrArg Deadline.id he)
      simp [hd, hne]
  named k u hk := by
    simp only [TimerQueue.insert, Table.get?_insert] at hk
    split_ifs at hk with he
    · exact (congrArg Timer.id (Option.some.inj hk)).symm.trans he.symm
    · exact h.named k u hk
  waiting := h.waiting.insert t.id t
  running := h.running

theorem get?_cancel_eq (q : TimerQueue τ) (id k : Nat) :
    (q.cancel id).waiting.get? k = if k = id then none else q.waiting.get? k := by
  unfold cancel
  cases hid : q.waiting.get? id with
  | none =>
    by_cases hk : k = id
    · rw [hk, if_pos rfl, hid]
    · rw [if_neg hk]
  | some t => exact Table.get?_erase q.waiting id k

theorem Sound.cancel (h : q.Sound) (id : Nat) : (q.cancel id).Sound := by
  have hget := get?_cancel_eq q id
  unfold TimerQueue.cancel at hget ⊢
  cases hid : q.waiting.get? id with
  | none => exact h
  | some t =>
    rw [hid] at hget
    refine ⟨h.ordered.sublist List.erase_sublist, fun d => ?_, fun k u hk => ?_,
      h.waiting.erase id, h.running⟩
    · rw [h.ordered.nodup.mem_erase_iff, h.mem, hget]
      by_cases hd : d.id = id
      · rw [hd, hid]
        simp [eq_comm]
      · have hne : d ≠ t.deadline := fun he =>
          hd ((congrArg Deadline.id he).trans (h.named id t hid))
        simp [hd, hne]
    · rw [hget] at hk
      split_ifs at hk
      exact h.named k u hk

/-! ## What is due -/

/-- The ids that are due, in the order of their deadlines. -/
theorem Sound.takeDue_fst (h : q.Sound) (now : Nat) :
    (q.takeDue now).1.map Timer.deadline = q.deadlines.filter (·.time ≤ now) := by
  have hall : ∀ ds : List Deadline, (∀ d ∈ ds, d ∈ q.deadlines) →
      (ds.filterMap fun d => q.waiting.get? d.id).map Timer.deadline = ds := by
    intro ds
    induction ds with
    | nil => exact fun _ => rfl
    | cons d ds ih =>
      intro hds
      obtain ⟨t, ht, hd⟩ := (h.mem d).mp (hds d List.mem_cons_self)
      have hrest := ih fun e he => hds e (List.mem_cons_of_mem d he)
      simp only [List.filterMap_cons, ht, List.map_cons, hd, hrest]
  rw [takeDue]
  dsimp only
  rw [(h.ordered.takeWhile_eq now).1]
  exact hall _ fun d hd => (List.mem_filter.mp hd).1

theorem get?_foldl_erase (k : Nat) : ∀ (ds : List Deadline) (w : Table Nat (Timer τ)),
    (ds.foldl (fun w d => w.erase d.id) w).get? k =
      if ∃ d ∈ ds, d.id = k then none else w.get? k
  | [], w => by simp
  | d :: ds, w => by
    rw [List.foldl_cons, get?_foldl_erase k ds, Table.get?_erase]
    by_cases hk : k = d.id
    · simp [hk]
    · simp [hk, Ne.symm hk]

theorem distinct_foldl_erase : ∀ (ds : List Deadline) {w : Table Nat (Timer τ)}, w.Distinct →
    (ds.foldl (fun w d => w.erase d.id) w).Distinct
  | [], _, h => h
  | d :: ds, _, h => distinct_foldl_erase ds (h.erase d.id)

/-- A timer that waits goes on waiting if it is not due. -/
theorem Sound.takeDue_waiting (h : q.Sound) (now k : Nat) :
    (q.takeDue now).2.waiting.get? k = (q.waiting.get? k).filter (now < ·.nextRun) := by
  rw [takeDue]
  dsimp only
  rw [get?_foldl_erase, (h.ordered.takeWhile_eq now).1]
  cases hk : q.waiting.get? k with
  | none => simp
  | some t =>
    have hid := h.named k t hk
    have hdeadline : t.deadline ∈ q.deadlines := (h.mem _).mpr ⟨t, by rwa [← hid] at hk, rfl⟩
    have hdue : (∃ d ∈ q.deadlines.filter (·.time ≤ now), d.id = k) ↔ t.nextRun ≤ now := by
      constructor
      · rintro ⟨d, hd, rfl⟩
        obtain ⟨hd, hle⟩ := List.mem_filter.mp hd
        obtain ⟨u, hu, rfl⟩ := (h.mem d).mp hd
        cases hk.symm.trans hu
        exact of_decide_eq_true hle
      · intro hle
        exact ⟨t.deadline, List.mem_filter.mpr ⟨hdeadline, decide_eq_true hle⟩, hid⟩
    simp only [hdue]
    by_cases hle : t.nextRun ≤ now
    · simp [hle, Option.filter_some]
    · simp [hle, Option.filter_some]

theorem Sound.takeDue (h : q.Sound) (now : Nat) : (q.takeDue now).2.Sound where
  ordered := h.ordered.sublist (List.dropWhile_sublist _)
  mem d := by
    rw [h.takeDue_waiting]
    change d ∈ q.deadlines.dropWhile (·.time ≤ now) ↔ _
    rw [(h.ordered.takeWhile_eq now).2, List.mem_filter, h.mem]
    constructor
    · rintro ⟨⟨t, ht, rfl⟩, hlate⟩
      exact ⟨t, Option.filter_eq_some_iff.mpr ⟨ht, hlate⟩, rfl⟩
    · rintro ⟨t, ht, rfl⟩
      obtain ⟨ht, hlate⟩ := Option.filter_eq_some_iff.mp ht
      exact ⟨⟨t, ht, rfl⟩, hlate⟩
  named k t hk := by
    rw [h.takeDue_waiting] at hk
    exact h.named k t (Option.filter_eq_some_iff.mp hk).1
  waiting := distinct_foldl_erase _ h.waiting
  running := h.running

theorem Sound.mem_takeDue (h : q.Sound) (now : Nat) (t : Timer τ) :
    t ∈ (q.takeDue now).1 ↔ q.waiting.get? t.id = some t ∧ t.nextRun ≤ now := by
  have hmap := h.takeDue_fst now
  constructor
  · intro ht
    have hdeadline : t.deadline ∈ q.deadlines.filter (·.time ≤ now) :=
      hmap ▸ List.mem_map_of_mem ht
    obtain ⟨d, -, hd⟩ := List.mem_filterMap.mp ht
    have hid := h.named _ t hd
    rw [← hid] at hd
    exact ⟨hd, of_decide_eq_true (List.mem_filter.mp hdeadline).2⟩
  · rintro ⟨ht, hle⟩
    rw [TimerQueue.takeDue]
    dsimp only
    rw [(h.ordered.takeWhile_eq now).1]
    have hdeadline : t.deadline ∈ q.deadlines := (h.mem _).mpr ⟨t, ht, rfl⟩
    exact List.mem_filterMap.mpr
      ⟨t.deadline, List.mem_filter.mpr ⟨hdeadline, decide_eq_true hle⟩, ht⟩

/-- What is detached from a queue is what is due, in the order of the deadlines; all other timers
stay where they are. -/
theorem Sound.due_spec (h : q.Sound) (now : Nat) :
    (∀ t, t ∈ (q.takeDue now).1 ↔ q.waiting.get? t.id = some t ∧ t.nextRun ≤ now) ∧
      Deadline.Ordered ((q.takeDue now).1.map Timer.deadline) ∧
      (∀ k, (q.takeDue now).2.waiting.get? k = (q.waiting.get? k).filter (now < ·.nextRun)) ∧
      (q.takeDue now).2.running = q.running := by
  refine ⟨h.mem_takeDue now, ?_, h.takeDue_waiting now, rfl⟩
  rw [h.takeDue_fst]
  exact h.ordered.sublist List.filter_sublist

end TimerQueue
end PeerLink
