import PeerLink.Proofs.TimerKept

/-! # Timers at any time

* `TimerRun.firing`: the periodic timers whose firings are in progress.
* `TimerRun.Intact`: what can be said of a service at any time: its deadlines are those of the
  timers that wait, its count is that of timers that wait or fire, and a sweep takes what is due.
* `TimerRun.timers_intact`: so it is in every run. No firing begins after its timer was cancelled or
  for a second time if it is to happen once, and nothing moves in a service that has stopped.
-/

namespace PeerLink
set_option autoImplicit false

variable {τ : Type}

/-! ## Firings in progress -/

/-- The timer whose firing a letter reports. -/
def TimerLetter.report? : TimerLetter τ → Option Nat
  | .finished id => some id
  | _ => none

@[simp] theorem TimerLetter.report?_finished (id : Nat) :
    (.finished id : TimerLetter τ).report? = some id := rfl

@[simp] theorem TimerLetter.report?_insert (t : Timer τ) :
    (TimerLetter.insert t).report? = none := rfl

@[simp] theorem TimerLetter.report?_cancel (id : Nat) :
    (.cancel id : TimerLetter τ).report? = none := rfl

@[simp] theorem TimerLetter.report?_shutdown :
    (.shutdown : TimerLetter τ).report? = none := rfl

/-- How many firings of the timer are in progress. -/
def Stage.firings : Stage τ → Nat
  | .due t | .active t => if t.isPeriodic then 1 else 0
  | .reported _ => 1
  | _ => 0

/-- Where a timer can be that will not wait again once it is cancelled. -/
def Stage.Closing : Stage τ → Prop
  | .posted _ | .waiting _ => False
  | _ => True

/-- How often a timer may still fire that fires once. -/
def Stage.OneLeft (fired : Nat) : Stage τ → Prop
  | .posted t | .waiting t | .due t => t.interval = none ∧ fired = 0
  | .active t => t.interval = none ∧ fired ≤ 1
  | .absent => fired ≤ 1
  | .reported _ | .stranded _ => False

theorem Stage.OneLeft.ending {t : Timer τ} {fired : Nat} (honce : t.interval = none)
    (hfired : fired ≤ 1) : (Stage.ending t).OneLeft fired := by
  unfold Stage.ending Timer.isPeriodic
  rw [honce]
  exact hfired

namespace TimerRun

/-- The periodic timers whose firing has been handed to the workers and not been reported, or whose
report has not been read. -/
def firing (r : TimerRun τ) : List Nat :=
  ((r.service.due ++ r.active).filter (·.isPeriodic)).map (·.id) ++
    r.service.letters.filterMap (·.report?)

variable {r r' : TimerRun τ} {id : Nat} {s : Stage τ} {m : TimerMove τ} {t : Timer τ}

theorem count_ids (id : Nat) (ts : List (Timer τ)) :
    ((ts.filter (·.isPeriodic)).map (·.id)).count id =
      ((ts.filter (·.id = id)).filter (·.isPeriodic)).length := by
  induction ts with
  | nil => rfl
  | cons t ts ih =>
    by_cases hid : t.id = id <;> cases hp : t.isPeriodic <;>
      simp [hid, hp, ih]

theorem count_reports (id : Nat) (ls : List (TimerLetter τ)) :
    (ls.filterMap (·.report?)).count id =
      ((ls.filter (·.about id)).filterMap (·.report?)).length := by
  induction ls with
  | nil => rfl
  | cons l ls ih =>
    cases l with
    | finished id' => by_cases hid : id' = id <;> simp [hid, ih]
    | insert t => by_cases hid : t.id = id <;> simp [List.filterMap_cons, hid, ih]
    | cancel id' => simp [List.filterMap_cons, ih]
    | shutdown => simp [List.filterMap_cons, ih]

theorem Stands.count_firing (hs : r.Stands id s) : r.firing.count id = s.firings := by
  rw [firing, List.count_append, count_ids, count_reports, List.filter_append, hs.due, hs.active,
    hs.letters]
  cases s with
  | due t | active t =>
    cases hp : t.isPeriodic <;>
      simp [Stage.inDue, Stage.inActive, Stage.inLetters, Stage.firings, hp]
  | _ => rfl

theorem Kept.nodup_firing (h : r.Kept) : r.firing.Nodup := by
  refine List.nodup_iff_count_le_one.mpr fun id => ?_
  obtain ⟨s, hs⟩ := h.stands id
  rw [hs.count_firing]
  cases s with
  | due t | active t => cases hp : t.isPeriodic <;> simp [Stage.firings, hp]
  | reported t => exact Nat.le_refl 1
  | _ => exact Nat.zero_le 1

/-- As long as a service works, it knows which firings are in progress. -/
theorem Kept.mem_firing (h : r.Kept) (hworks : r.service.stopped = false) (id : Nat) :
    id ∈ r.firing ↔ r.service.queue.running.get? id ≠ none := by
  obtain ⟨s, hs⟩ := h.stands id
  rw [← List.count_pos_iff, hs.count_firing, hs.running]
  cases s with
  | due t | active t => cases hp : t.isPeriodic <;> simp [Stage.firings, Stage.inRunning, hp]
  | reported t => simp [Stage.firings, Stage.inRunning]
  | stranded t => exact absurd (hworks.symm.trans hs.fits.2.2) Bool.false_ne_true
  | _ => simp [Stage.firings, Stage.inRunning]

theorem Kept.size_running (h : r.Kept) (hworks : r.service.stopped = false) :
    r.service.queue.running.size = r.firing.length := by
  have hkeys : r.service.queue.running.size = r.service.queue.running.keys.length :=
    (List.length_map _).symm
  rw [hkeys]
  refine ((List.perm_ext_iff_of_nodup h.queue.running h.nodup_firing).mpr fun id => ?_).length_eq
  rw [h.mem_firing hworks, ne_eq, Table.get?_eq_none, not_not]

/-! ## At any time -/

/-- What can be said of a service at any time. -/
structure Intact (r : TimerRun τ) : Prop where
  /-- The deadlines are those of the timers that wait, -/
  deadlines : ∀ d, d ∈ r.service.queue.deadlines ↔
    ∃ t, r.service.queue.waiting.get? d.id = some t ∧ ⟨t.nextRun, t.id⟩ = d
  /-- each once, and in order. -/
  ordered : Deadline.Ordered r.service.queue.deadlines
  apart : ∀ id, r.service.queue.waiting.get? id ≠ none → r.service.queue.running.get? id = none
  /-- The timers that wait are counted, and the periodic ones whose firing is in progress. -/
  count : r.service.count =
    if r.service.stopped then 0 else r.service.queue.waiting.keys.length + r.firing.length
  waitingOnce : r.service.queue.waiting.keys.Nodup
  firingOnce : r.firing.Nodup
  /-- What a sweep detaches waits and is due, -/
  due : ∀ t, t ∈ (r.service.queue.takeDue r.service.now).1 ↔
    r.service.queue.waiting.get? t.id = some t ∧ t.nextRun ≤ r.service.now
  /-- and comes in the order of the deadlines. -/
  dueOrdered :
    Deadline.Ordered ((r.service.queue.takeDue r.service.now).1.map fun t => ⟨t.nextRun, t.id⟩)
  /-- All that is not due goes on waiting, -/
  sweep : r.service.stopped = false → ∀ id,
    (r.after .sweep).service.queue.waiting.get? id =
      (r.service.queue.waiting.get? id).filter (r.service.now < ·.nextRun)
  /-- and what was detached goes to the workers unless it was cancelled. -/
  handed : r.service.stopped = false → (r.after .sweep).service.due =
    r.service.due ++ (r.service.queue.takeDue r.service.now).1.filter
      (¬ ·.id ∈ r.service.cancelled)

theorem Kept.intact (h : r.Kept) : r.Intact := by
  obtain ⟨hdue, hordered, hwaiting, -⟩ := h.queue.due_spec r.service.now
  refine ⟨h.queue.mem, h.queue.ordered, fun id hid => ?_, ?_, h.queue.waiting, h.nodup_firing, hdue,
    hordered, fun hworks id => ?_, fun hworks => ?_⟩
  · obtain ⟨s, hs⟩ := h.stands id
    rw [hs.waiting] at hid
    rw [hs.running]
    cases s with
    | waiting t => rfl
    | _ => exact absurd rfl hid
  · unfold TimerService.count TimerQueue.size
    cases hworks : r.service.stopped with
    | true => rfl
    | false =>
      rw [if_neg Bool.false_ne_true, if_neg Bool.false_ne_true, h.size_running hworks]
      exact congrArg (· + _) (List.length_map _).symm
  · rw [after_sweep hworks]
    exact hwaiting id
  · rw [after_sweep hworks]
    refine congrArg (r.service.due ++ ·) (List.filter_congr fun t _ => ?_)
    simp [← TimerService.isCancelled_iff]

/-! ## Cancelled timers -/

/-- What one move notes. -/
theorem notes_after (r : TimerRun τ) (m : TimerMove τ) : ∃ ns, (r.after m).notes = r.notes ++ ns ∧
    ns.length ≤ 1 ∧ (∀ id, .cancelled id ∈ ns → m = .cancel id) ∧
    ∀ t time, .began t time ∈ ns → t.id ∉ r.service.cancelled := by
  cases m with
  | add task delay interval policy => exact ⟨[_], rfl, Nat.le_refl 1, by simp, by simp⟩
  | cancel id => exact ⟨[.cancelled id], rfl, Nat.le_refl 1, by simp [eq_comm], by simp⟩
  | shutdown | advance | receive | sweep =>
    exact ⟨[], (List.append_nil _).symm, Nat.zero_le 1, by simp, by simp⟩
  | start n =>
    rw [after]
    split
    · exact ⟨[], (List.append_nil _).symm, Nat.zero_le 1, by simp, by simp⟩
    · rename_i t _
      rw [takeUp_eq]
      split
      · exact ⟨[], (List.append_nil _).symm, Nat.zero_le 1, by simp, by simp⟩
      · rename_i hc
        refine ⟨[.began t r.service.now], rfl, Nat.le_refl 1, by simp, fun u time hu => ?_⟩
        obtain ⟨rfl, -⟩ := TimerNote.began.inj (List.mem_singleton.mp hu)
        exact hc
  | finish n e =>
    rw [after]
    split
    · exact ⟨[], (List.append_nil _).symm, Nat.zero_le 1, by simp, by simp⟩
    · exact ⟨[_], rfl, Nat.le_refl 1, by simp, by simp⟩

/-- The second of two notes is not about a firing that began when the first had cancelled its
timer. -/
def InTime (a b : TimerNote τ) : Prop :=
  ∀ id t time, a = .cancelled id → b = .began t time → t.id ≠ id

theorem began_in_time (ms : List (TimerMove τ)) :
    (∀ id, .cancelled id ∈ (run ms).notes → id ∈ (run ms).service.cancelled) ∧
      (run ms).notes.Pairwise InTime := by
  induction ms using List.reverseRecOn with
  | nil => exact ⟨fun id h => absurd h List.not_mem_nil, List.Pairwise.nil⟩
  | append_singleton ms m ih =>
    obtain ⟨hmarked, hpairwise⟩ := ih
    obtain ⟨ns, hnotes, hone, hcancel, hbegan⟩ := notes_after (run ms) m
    rw [run_snoc, hnotes]
    refine ⟨fun id hid => ?_, List.pairwise_append.mpr ⟨hpairwise, ?_, fun a ha b hb => ?_⟩⟩
    · obtain hid | hid := List.mem_append.mp hid
      · exact cancelled_after _ m (hmarked id hid)
      · obtain rfl := hcancel id hid
        exact (run ms).service.mem_cancel id
    · match ns, hone with
      | [], _ => exact List.Pairwise.nil
      | [n], _ => exact List.pairwise_singleton _ n
    · rintro id t time rfl rfl rfl
      exact hbegan t time hb (hmarked _ ha)

/-- A timer that is cancelled while it fires does not wait again. -/
theorem Kept.closing (h : r.Kept) (hid : id < r.service.nextId) (hc : id ∈ r.service.cancelled)
    (hs : r.Stands id s) (hclosing : Stage.Closing s) (m : TimerMove τ) :
    ∃ s', (r.after m).Stands id s' ∧ Stage.Closing s' := by
  obtain ⟨ns, s', hpasses, hs', -⟩ := h.lands hs m
  refine ⟨s', hs', ?_⟩
  cases hpasses with
  | stays => exact hclosing
  | added fresh => exact absurd fresh (Nat.ne_of_lt hid)
  | queued | removed | detached | dropped | lost => exact hclosing.elim
  | begun _ kept | renewed _ kept => exact absurd hc kept
  | passedOver | ended =>
    unfold Stage.ending
    split <;> trivial
  | forgotten | stranded => trivial

/-- A timer that is cancelled while it fires waits no more, whatever follows. -/
theorem cancelled_firing (ms : List (TimerMove τ)) {id : Nat}
    (hc : id ∈ (run ms).service.cancelled)
    (hrun : (run ms).service.queue.running.get? id ≠ none) (ms' : List (TimerMove τ)) :
    (run (ms ++ ms')).service.queue.waiting.get? id = none := by
  have hkept := kept_run ms
  have hid : id < (run ms).service.nextId := by
    refine Nat.not_le.mp fun hle => hrun ?_
    exact (hkept.fresh id hle).running
  have hall : id < (run (ms ++ ms')).service.nextId ∧ id ∈ (run (ms ++ ms')).service.cancelled ∧
      ∃ s, (run (ms ++ ms')).Stands id s ∧ Stage.Closing s := by
    induction ms' using List.reverseRecOn with
    | nil =>
      rw [List.append_nil]
      obtain ⟨s, hs⟩ := hkept.stands id
      refine ⟨hid, hc, s, hs, ?_⟩
      rw [hs.running] at hrun
      cases s with
      | posted t | waiting t => exact absurd rfl hrun
      | _ => trivial
    | append_singleton ms' m ih =>
      obtain ⟨hid', hc', s, hs, hclosing⟩ := ih
      rw [← List.append_assoc, run_snoc]
      refine ⟨?_, cancelled_after _ m hc', (kept_run (ms ++ ms')).closing hid' hc' hs hclosing m⟩
      rw [nextId_after]
      omega
  obtain ⟨-, -, s, hs, hclosing⟩ := hall
  rw [hs.waiting]
  cases s with
  | waiting t => exact hclosing.elim
  | _ => rfl

/-! ## Timers that fire once -/

theorem Passes.oneLeft {ns : List (TimerNote τ)} {s' : Stage τ} {fired : Nat}
    (h : r.Passes id m s ns s') (hid : id < r.service.nextId) (hleft : s.OneLeft fired) :
    s'.OneLeft (fired + (ns.filterMap (·.beginning?)).length) := by
  cases h with
  | added fresh => exact absurd fresh (Nat.ne_of_lt hid)
  | stays | queued | detached => exact hleft
  | lost | removed | dropped => exact hleft.2 ▸ Nat.zero_le 1
  | begun => exact ⟨hleft.1, hleft.2 ▸ Nat.le_refl 1⟩
  | passedOver => exact .ending hleft.1 (hleft.2 ▸ Nat.zero_le 1)
  | ended => exact .ending hleft.1 hleft.2
  | renewed | forgotten | stranded => exact hleft.elim

theorem fires_once (before : List (TimerMove τ)) (task : τ) (delay : Nat) (policy : FiringPolicy)
    (later : List (TimerMove τ)) :
    ((run (before ++ .add task delay none policy :: later)).begins
      (run before).service.nextId).length ≤ 1 := by
  have hfollow : ∃ s, (run (before ++ .add task delay none policy :: later)).Stands
      (run before).service.nextId s ∧ s.OneLeft
        ((run (before ++ .add task delay none policy :: later)).begins
          (run before).service.nextId).length := by
    refine follow (I := fun r s => s.OneLeft (r.begins _).length) (P := fun _ _ => True) ?_ ?_
      (.always fun _ _ => trivial)
    · rw [begins, story_added]
      exact ⟨rfl, rfl⟩
    · intro r m s ns s' _ hid _ hpasses hstory hleft
      rw [begins, hstory, List.filterMap_append, List.length_append]
      exact hpasses.oneLeft hid hleft
  obtain ⟨s, -, hleft⟩ := hfollow
  cases s with
  | posted t | waiting t | due t => exact hleft.2 ▸ Nat.zero_le 1
  | active t => exact hleft.2
  | absent => exact hleft
  | reported t | stranded t => exact hleft.elim

/-! ## A service that has stopped -/

theorem stopped_run (ms : List (TimerMove τ)) (h : (run ms).service.stopped = true)
    (ms' : List (TimerMove τ)) :
    (run (ms ++ ms')).service.stopped = true ∧
      (run (ms ++ ms')).service.queue = (run ms).service.queue ∧
      (run (ms ++ ms')).service.due.Sublist (run ms).service.due := by
  induction ms' using List.reverseRecOn with
  | nil =>
    rw [List.append_nil]
    exact ⟨h, rfl, List.Sublist.refl _⟩
  | append_singleton ms' m ih =>
    obtain ⟨hstopped, hqueue, hdue⟩ := ih
    obtain ⟨hstopped', hqueue', hdue'⟩ := stopped_after hstopped m
    rw [← List.append_assoc, run_snoc]
    exact ⟨hstopped', hqueue'.trans hqueue, hdue'.trans hdue⟩

/-! ## Every run -/

/-- In every run the timers are where they should be. -/
theorem timers_intact (ms : List (TimerMove τ)) :
    (run ms).Intact ∧ (run ms).notes.Pairwise InTime ∧
    (∀ before task delay policy later, ms = before ++ .add task delay none policy :: later →
      ((run ms).begins (run before).service.nextId).length ≤ 1) ∧
    (∀ id, id ∈ (run ms).service.cancelled → (run ms).service.queue.running.get? id ≠ none →
      ∀ ms', (run (ms ++ ms')).service.queue.waiting.get? id = none ∧
        ((run (ms ++ ms')).service.stopped = false →
          ((run (ms ++ ms')).service.queue.running.get? id ≠ none ↔
            id ∈ (run (ms ++ ms')).firing))) ∧
    ((run ms).service.stopped = true → ∀ ms', (run (ms ++ ms')).service.stopped = true ∧
      (run (ms ++ ms')).service.queue = (run ms).service.queue ∧
      (run (ms ++ ms')).service.due.Sublist (run ms).service.due) := by
  refine ⟨(kept_run ms).intact, (began_in_time ms).2, ?_, fun id hc hrun ms' => ⟨?_, ?_⟩,
    stopped_run ms⟩
  · rintro before task delay policy later rfl
    exact fires_once before task delay policy later
  · exact cancelled_firing ms hc hrun ms'
  · exact fun hworks => ((kept_run (ms ++ ms')).mem_firing hworks id).symm

end TimerRun
end PeerLink
