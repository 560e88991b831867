import Mathlib.Algebra.GroupWithZero.Nat
import Mathlib.Algebra.Order.BigOperators.Group.List
import Mathlib.Algebra.Order.Group.Nat
import PeerLink.Proofs.TimerKept

/-! # How far timers lag behind

* `TimerRun.stage`: the stage of a timer, read off the service.
* `Timer.lag`, `TimerRun.lag`: how far a next run lies in the past, for one timer and for all whose
  tasks do not run.
* `Stage.Regular`: no interval is of length zero. Then a firing makes up for lag, and what the
  service does of its own accord never adds to it (`TimerRun.Kept.lag_after`,
  `TimerRun.Kept.lag_sweep`, `TimerRun.Kept.lag_work`).
-/

namespace PeerLink
set_option autoImplicit false

variable {τ : Type}

/-- What is found under different keys is not more than there is. -/
theorem Table.sum_get?_le {α : Type} (f : α → Nat) {ids : List Nat} (hids : ids.Nodup)
    (t : Table Nat α) :
    (ids.map fun id => ((t.get? id).map f).getD 0).sum ≤ (t.values.map f).sum := by
  obtain ⟨es⟩ := t
  induction es with
  | nil => simp [Table.get?_nil, Table.values]
  | cons e es ih =>
    have hone : (ids.map fun id => if id = e.1 then f e.2 else 0).sum ≤ f e.2 := by
      rw [List.sum_map_eq_nsmul_single e.1 _ fun id hid _ => if_neg hid, if_pos rfl]
      have hcount : ids.count e.1 * f e.2 ≤ 1 * f e.2 :=
        Nat.mul_le_mul_right _ (List.nodup_iff_count_le_one.mp hids e.1)
      exact Nat.le_trans hcount (Nat.le_of_eq (Nat.one_mul _))
    calc (ids.map fun id => (((Table.mk (e :: es)).get? id).map f).getD 0).sum
        ≤ (ids.map fun id => (if id = e.1 then f e.2 else 0) +
            (((Table.mk es).get? id).map f).getD 0).sum := List.sum_le_sum fun id _ => by
          rw [Table.get?_cons]
          split
          · exact Nat.le_add_right _ _
          · exact Nat.le_add_left _ _
      _ = (ids.map fun id => if id = e.1 then f e.2 else 0).sum +
            (ids.map fun id => (((Table.mk es).get? id).map f).getD 0).sum := List.sum_map_add
      _ ≤ f e.2 + ((Table.mk es).values.map f).sum := Nat.add_le_add hone ih

/-! ## Stages of a service -/

namespace TimerRun

def stage (r : TimerRun τ) (id : Nat) : Stage τ :=
  match r.service.letters.find? (·.about id), r.service.queue.waiting.get? id,
    r.service.due.find? (·.id = id), r.active.find? (·.id = id),
    r.service.queue.running.get? id with
  | some (.insert t), _, _, _, _ => .posted t
  | some _, _, _, _, some t => .reported t
  | _, some t, _, _, _ => .waiting t
  | _, _, some t, _, _ => .due t
  | _, _, _, some t, _ => .active t
  | _, _, _, _, some t => .stranded t
  | _, _, _, _, _ => .absent

variable {r : TimerRun τ} {id : Nat} {s s' : Stage τ}

theorem Stands.stage_eq (hs : r.Stands id s) : r.stage id = s := by
  unfold stage
  rw [← List.head?_filter, ← List.head?_filter, ← List.head?_filter, hs.letters, hs.waiting, hs.due,
    hs.active, hs.running]
  cases s with
  | due t | active t =>
    cases hp : t.isPeriodic <;>
      simp [Stage.inLetters, Stage.inWaiting, Stage.inDue, Stage.inActive, Stage.inRunning, hp]
  | _ => rfl

theorem Kept.stands_stage (h : r.Kept) (id : Nat) : r.Stands id (r.stage id) := by
  obtain ⟨s, hs⟩ := h.stands id
  rwa [hs.stage_eq]

end TimerRun

namespace TimerRun

variable {r : TimerRun τ} {t : Timer τ}

theorem Kept.stage_of_due (h : r.Kept) (ht : t ∈ r.service.due) : r.stage t.id = .due t := by
  have hs := h.stands_stage t.id
  have hmem : t ∈ r.service.due.filter (·.id = t.id) := List.mem_filter.mpr ⟨ht, by simp⟩
  rw [hs.due] at hmem
  cases hstage : r.stage t.id with
  | due u =>
    rw [hstage] at hmem
    rw [List.mem_singleton.mp hmem]
  | _ =>
    rw [hstage] at hmem
    cases hmem

end TimerRun

/-! ## Lag -/

/-- How far the next run of a timer lies in the past, its time being counted. -/
def Timer.lag (now : Nat) (t : Timer τ) : Nat := now + 1 - t.nextRun

/-- A firing that has been handed over makes up for some of the lag, and a task that runs is left
out of the account. -/
def Stage.lag (now : Nat) : Stage τ → Nat
  | .posted t | .waiting t => t.lag now
  | .due t | .reported t => t.lag now - 1
  | .absent | .active _ | .stranded _ => 0

/-- An interval, if there is one, has some length. -/
def Stage.Regular : Stage τ → Prop
  | .absent => True
  | .posted t | .waiting t | .due t | .active t | .reported t | .stranded t => t.interval ≠ some 0

def TimerMove.Regular : TimerMove τ → Prop
  | .add _ _ interval _ => interval ≠ some 0
  | _ => True

theorem Stage.Regular.ending {t : Timer τ} (h : t.interval ≠ some 0) :
    (Stage.ending t).Regular := by
  unfold Stage.ending
  split
  · exact h
  · trivial

theorem Stage.lag_ending (now : Nat) (t : Timer τ) : (Stage.ending t).lag now ≤ t.lag now - 1 := by
  unfold Stage.ending
  split
  · exact Nat.le_refl _
  · exact Nat.zero_le _

/-- Moves that add no timer, let no time pass and end no task. -/
def TimerMove.Quiet : TimerMove τ → Prop
  | .add .. | .advance _ | .finish .. => False
  | _ => True

namespace TimerRun

variable {r : TimerRun τ} {id : Nat} {s s' : Stage τ} {m : TimerMove τ} {ns : List (TimerNote τ)}

theorem Passes.regular (h : r.Passes id m s ns s') (hm : m.Regular) (hs : s.Regular) :
    s'.Regular := by
  cases h with
  | added => exact hm
  | passedOver | ended => exact .ending hs
  | lost | removed | dropped | forgotten => trivial
  | stays | queued | detached | begun | renewed | stranded => exact hs

theorem stage_regular (ms : List (TimerMove τ)) (h : ∀ m ∈ ms, m.Regular) (id : Nat) :
    ((run ms).stage id).Regular := by
  induction ms using List.reverseRecOn with
  | nil => trivial
  | append_singleton ms m ih =>
    have hbefore := ih fun m' hm' => h m' (List.mem_append_left _ hm')
    obtain ⟨ns, s', hpasses, hs', -⟩ := (kept_run ms).lands ((kept_run ms).stands_stage id) m
    rw [run_snoc, hs'.stage_eq]
    exact hpasses.regular (h m (List.mem_append_right _ List.mem_cons_self)) hbefore

theorem Passes.lag_le (h : r.Passes id m s ns s') (hm : m.Quiet) (hs : s.Regular) (now : Nat) :
    s'.lag now ≤ s.lag now := by
  cases h with
  | stays | queued => exact Nat.le_refl _
  | added | ended => exact hm.elim
  | lost | removed | dropped | forgotten | begun | stranded => exact Nat.zero_le _
  | detached => exact Nat.sub_le _ _
  | passedOver => exact Stage.lag_ending _ _
  | @renewed t i _ _ hinterval =>
    have hi : i ≠ 0 := fun hi => hs (hi ▸ hinterval)
    have hnext : t.nextRun + i ≤ t.policy.nextRun t.nextRun i r.service.now :=
      FiringPolicy.le_nextRun _
    simp only [Stage.lag, Timer.lag]
    omega

/-! ## All timers -/

/-- The lag of all timers together. -/
def lag (r : TimerRun τ) : Nat :=
  ((List.range r.service.nextId).map fun id => (r.stage id).lag r.service.now).sum

variable {r' : TimerRun τ}

theorem lag_le (hnext : r'.service.nextId = r.service.nextId)
    (hnow : r'.service.now = r.service.now)
    (h : ∀ id, (r'.stage id).lag r.service.now ≤ (r.stage id).lag r.service.now) :
    r'.lag ≤ r.lag := by
  unfold lag
  rw [hnext, hnow]
  exact List.sum_le_sum fun id _ => h id

theorem lag_lt (id : Nat) (hnext : r'.service.nextId = r.service.nextId)
    (hnow : r'.service.now = r.service.now)
    (h : ∀ id, (r'.stage id).lag r.service.now ≤ (r.stage id).lag r.service.now)
    (hid : id < r.service.nextId)
    (hlt : (r'.stage id).lag r.service.now < (r.stage id).lag r.service.now) : r'.lag < r.lag := by
  unfold lag
  rw [hnext, hnow]
  exact List.sum_lt_sum _ _ (fun id _ => h id) ⟨id, List.mem_range.mpr hid, hlt⟩

theorem nextId_quiet (hm : m.Quiet) (r : TimerRun τ) :
    (r.after m).service.nextId = r.service.nextId := by
  rw [nextId_after]
  cases m with
  | add => exact hm.elim
  | _ => rfl

theorem now_quiet (hm : m.Quiet) (r : TimerRun τ) :
    (r.after m).service.now = r.service.now := by
  rw [now_after]
  cases m with
  | advance => exact hm.elim
  | _ => rfl

theorem Kept.stage_after (h : r.Kept) (m : TimerMove τ) (id : Nat) :
    ∃ ns, r.Passes id m (r.stage id) ns ((r.after m).stage id) := by
  obtain ⟨ns, s', hpasses, hs', -⟩ := h.lands (h.stands_stage id) m
  exact ⟨ns, hs'.stage_eq ▸ hpasses⟩

theorem Kept.lag_after (h : r.Kept) (hregular : ∀ id, (r.stage id).Regular) (hm : m.Quiet) :
    (r.after m).lag ≤ r.lag := by
  refine lag_le (nextId_quiet hm r) (now_quiet hm r) fun id => ?_
  obtain ⟨ns, hpasses⟩ := h.stage_after m id
  exact hpasses.lag_le hm (hregular id) _

/-- What a sweep hands over makes up for some lag. -/
theorem Kept.lag_sweep (h : r.Kept) (hregular : ∀ id, (r.stage id).Regular)
    (hidle : r.service.due = []) (hfires : (r.after .sweep).service.due ≠ []) :
    (r.after .sweep).lag < r.lag := by
  obtain ⟨t, ht⟩ := List.exists_mem_of_ne_nil _ hfires
  have hquiet : (.sweep : TimerMove τ).Quiet := trivial
  have hdue := (h.after .sweep).stage_of_due ht
  obtain ⟨ns, hpasses⟩ := h.stage_after .sweep t.id
  rw [hdue] at hpasses
  have hwaits : r.stage t.id = .waiting t ∧ t.nextRun ≤ r.service.now := by
    have hs := h.stands_stage t.id
    generalize r.stage t.id = s at hpasses hs
    cases hpasses with
    | detached _ _ hnow => exact ⟨rfl, hnow⟩
    | stays =>
      have hbefore := hs.due
      rw [hidle] at hbefore
      cases hbefore
  have hid : t.id < r.service.nextId := Nat.not_le.mp fun hle => by
    have habsent := (h.fresh _ hle).stage_eq
    rw [hwaits.1] at habsent
    cases habsent
  refine lag_lt t.id (nextId_quiet hquiet r) (now_quiet hquiet r) (fun id => ?_) hid ?_
  · obtain ⟨ns, hpasses⟩ := h.stage_after .sweep id
    exact hpasses.lag_le hquiet (hregular id) _
  · rw [hdue, hwaits.1]
    simp only [Stage.lag, Timer.lag]
    omega

/-- A firing that is taken up is no longer due, and its task runs or is passed over. -/
theorem active_start {ts : List (Timer τ)} {t : Timer τ} (hdue : r.service.due = t :: ts) :
    (r.after (.start 0)).active = r.active ∨ (r.after (.start 0)).active = r.active ++ [t] := by
  have hfirst : r.service.due[0]? = some t := by rw [hdue]; rfl
  simp only [after, hfirst, takeUp_eq]
  split
  · exact .inl rfl
  · exact .inr rfl

/-- A firing whose task ends at once. -/
theorem Kept.lag_work {ts : List (Timer τ)} {t : Timer τ} (h : r.Kept)
    (hregular : ∀ id, (r.stage id).Regular) (hdue : r.service.due = t :: ts) (e : TaskEnd) :
    ((r.after (.start 0)).after (.finish r.active.length e)).lag ≤ r.lag := by
  have hstart := h.after (.start 0)
  refine lag_le ?_ ?_ fun id => ?_
  · rw [nextId_after, nextId_after]
    rfl
  · rw [now_after, now_after]
    rfl
  obtain ⟨ns, hfirst⟩ := h.stage_after (.start 0) id
  obtain ⟨ns', hlast⟩ := hstart.stage_after (.finish r.active.length e) id
  have hle := hfirst.lag_le (m := .start 0) trivial (hregular id) r.service.now
  generalize ((r.after (.start 0)).after (.finish r.active.length e)).stage id = s'' at hlast ⊢
  have hs := hstart.stands_stage id
  generalize (r.after (.start 0)).stage id = s' at hfirst hlast hle hs
  cases hlast with
  | stays => exact hle
  | @ended u _ _ taken =>
    -- The task that ends is that of the firing that was taken up.
    obtain rfl : u = t := by
      obtain hactive | hactive := active_start hdue
      · rw [hactive, List.getElem?_eq_none (Nat.le_refl _)] at taken
        cases taken
      · rw [hactive, List.getElem?_concat_length] at taken
        exact (Option.some.inj taken).symm
    obtain rfl : u.id = id := hs.fits
    have hstage := h.stage_of_due (hdue ▸ List.mem_cons_self)
    rw [hstage]
    exact Stage.lag_ending _ _

/-- When all letters are read and all firings taken up, only timers that wait lag behind. -/
theorem Kept.lag_le_waiting (h : r.Kept) (hletters : r.service.letters = [])
    (hdue : r.service.due = []) :
    r.lag ≤ (r.service.queue.waiting.values.map (·.lag r.service.now)).sum := by
  refine Nat.le_trans (List.sum_le_sum fun id _ => ?_)
    (Table.sum_get?_le _ List.nodup_range r.service.queue.waiting)
  have hs := h.stands_stage id
  rw [hs.waiting]
  generalize r.stage id = s at hs ⊢
  cases s with
  | posted t | reported t =>
    have hnone := hs.letters
    rw [hletters] at hnone
    cases hnone
  | due t =>
    have hnone := hs.due
    rw [hdue] at hnone
    cases hnone
  | _ => exact Nat.le_refl _

end TimerRun

end PeerLink
