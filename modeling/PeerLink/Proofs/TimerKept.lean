import Mathlib.Data.List.Induction
import PeerLink.Proofs.TimerLife
import PeerLink.Proofs.TimerSteps

/-! # What holds of every run of a timer service

* `TimerRun.cancelled_after`, `TimerRun.now_after` and their like: what a move leaves alone.
* `TimerRun.Kept.after`, `TimerRun.kept_run`: in every run each timer is at one stage, and the queue
  is sound.
-/

namespace PeerLink
set_option autoImplicit false

variable {τ : Type}

namespace TimerRun

variable {r : TimerRun τ} {id : Nat} {s : Stage τ} {m : TimerMove τ}

/-! ## What a move leaves alone -/

/-- A worker that takes a firing touches neither the queue nor the clock. -/
theorem service_start (r : TimerRun τ) (n : Nat) :
    (r.after (.start n)).service =
      { r.service with
        letters := (r.after (.start n)).service.letters
        cancelled := (r.after (.start n)).service.cancelled
        due := (r.after (.start n)).service.due } := by
  rw [after]
  split
  · rfl
  · rename_i t _
    rw [takeUp_eq, start_eq]
    split
    · rw [finish_eq]
    · rfl

theorem service_finish (r : TimerRun τ) (n : Nat) (e : TaskEnd) :
    (r.after (.finish n e)).service =
      { r.service with letters := (r.after (.finish n e)).service.letters } := by
  rw [after]
  split
  · rfl
  · exact finish_eq ..

theorem service_cancel (s : TimerService τ) (id : Nat) :
    s.cancel id =
      { s with letters := (s.cancel id).letters, cancelled := (s.cancel id).cancelled } := by
  unfold TimerService.cancel
  split
  · rfl
  · unfold TimerService.mark
    split <;> rfl

theorem cancelled_after (r : TimerRun τ) (m : TimerMove τ) :
    r.service.cancelled ⊆ (r.after m).service.cancelled := by
  cases m with
  | add | shutdown | advance => exact fun _ h => h
  | cancel id' => exact (r.service.cancel_fades id').cancelled
  | receive => exact r.service.receive_fades.cancelled
  | sweep => exact r.service.sweep_fades.cancelled
  | finish n e =>
    rw [service_finish]
    exact fun _ h => h
  | start n =>
    rw [after]
    split
    · exact fun _ h => h
    · rename_i t _
      have hstart : r.service.cancelled ⊆
          ({ r.service with due := r.service.due.eraseIdx n }.start t).2.cancelled := by
        unfold TimerService.start
        dsimp only
        split
        · exact fun _ h => h
        · exact (TimerService.mark_fades
            { r.service with due := r.service.due.eraseIdx n } t.id).cancelled
      rw [takeUp_eq]
      split
      · rw [finish_eq]
        exact hstart
      · exact hstart

/-- Letters that cancel timers come from calls only. -/
theorem cancel_mem_after (h : .cancel id ∈ (r.after m).service.letters) :
    .cancel id ∈ r.service.letters ∨ m = .cancel id := by
  have hsend : ∀ {service : TimerService τ} {l : TimerLetter τ},
      .cancel id ∈ (service.send l).letters → .cancel id ∈ service.letters ∨ l = .cancel id := by
    intro service l hl
    exact (List.mem_append.mp hl).imp_right fun hl => (List.mem_singleton.mp hl).symm
  have hfinish : ∀ {service : TimerService τ} {t : Timer τ},
      .cancel id ∈ (service.finish t).letters → .cancel id ∈ service.letters := by
    intro service t hl
    unfold TimerService.finish at hl
    split at hl
    · exact (hsend hl).resolve_right nofun
    · exact hl
  cases m with
  | add => exact (hsend h).imp_right nofun
  | shutdown => exact (hsend h).imp_right nofun
  | advance => exact .inl h
  | cancel id' =>
    simp only [after, TimerService.cancel] at h
    split at h
    · exact .inl h
    · obtain h | h := hsend h
      · unfold TimerService.mark at h
        split at h <;> exact .inl h
      · exact .inr (congrArg _ (TimerLetter.cancel.inj h))
  | receive =>
    simp only [after] at h
    rw [TimerService.receive_eq] at h
    exact .inl (List.mem_of_mem_tail h)
  | sweep =>
    simp only [after] at h
    rw [TimerService.sweep_eq] at h
    exact .inl h
  | start n =>
    left
    rw [after] at h
    split at h
    · exact h
    · rw [takeUp_eq] at h
      split at h
      · have hl := hfinish h
        rwa [start_eq] at hl
      · rwa [start_eq] at h
  | finish n e =>
    left
    rw [after] at h
    split at h
    · exact h
    · exact hfinish h

theorem now_after (r : TimerRun τ) (m : TimerMove τ) :
    (r.after m).service.now = r.service.now + match m with | .advance ms => ms | _ => 0 := by
  cases m with
  | add | shutdown | advance => rfl
  | cancel id' =>
    simp only [after]
    rw [service_cancel]
    rfl
  | receive =>
    simp only [after]
    rw [TimerService.receive_eq]
    rfl
  | sweep =>
    simp only [after]
    rw [TimerService.sweep_eq]
    rfl
  | start n =>
    rw [service_start]
    rfl
  | finish n e =>
    rw [service_finish]
    rfl

theorem nextId_after (r : TimerRun τ) (m : TimerMove τ) :
    (r.after m).service.nextId = r.service.nextId + match m with | .add .. => 1 | _ => 0 := by
  cases m with
  | add | shutdown | advance => rfl
  | cancel id' =>
    simp only [after]
    rw [service_cancel]
    rfl
  | receive =>
    simp only [after]
    rw [TimerService.receive_eq]
    rfl
  | sweep =>
    simp only [after]
    rw [TimerService.sweep_eq]
    rfl
  | start n =>
    rw [service_start]
    rfl
  | finish n e =>
    rw [service_finish]
    rfl

/-- Only the service itself touches its queue, and it stops only by a letter. -/
theorem queue_after (r : TimerRun τ) (hreceive : m ≠ .receive) (hsweep : m ≠ .sweep) :
    (r.after m).service.queue = r.service.queue ∧
      (r.after m).service.stopped = r.service.stopped := by
  cases m with
  | add | shutdown | advance => exact ⟨rfl, rfl⟩
  | cancel id' =>
    simp only [after]
    rw [service_cancel]
    exact ⟨rfl, rfl⟩
  | receive => exact absurd rfl hreceive
  | sweep => exact absurd rfl hsweep
  | start n =>
    rw [service_start]
    exact ⟨rfl, rfl⟩
  | finish n e =>
    rw [service_finish]
    exact ⟨rfl, rfl⟩

theorem due_start (r : TimerRun τ) (n : Nat) :
    (r.after (.start n)).service.due = r.service.due.eraseIdx n := by
  rw [after]
  split
  · rename_i hn
    exact (List.eraseIdx_of_length_le (List.getElem?_eq_none_iff.mp hn)).symm
  · rw [takeUp_eq, start_eq]
    split
    · rw [finish_eq]
    · rfl

/-- A service that has stopped moves no timer. -/
theorem stopped_after (h : r.service.stopped = true) (m : TimerMove τ) :
    (r.after m).service.stopped = true ∧ (r.after m).service.queue = r.service.queue ∧
      (r.after m).service.due.Sublist r.service.due := by
  cases m with
  | add | shutdown | advance => exact ⟨h, rfl, List.Sublist.refl _⟩
  | cancel id =>
    simp only [after]
    rw [service_cancel]
    exact ⟨h, rfl, List.Sublist.refl _⟩
  | receive =>
    simp only [after, TimerService.receive, h, if_true]
    split
    · exact ⟨h, rfl, List.Sublist.refl _⟩
    · exact ⟨rfl, rfl, List.Sublist.refl _⟩
  | sweep =>
    simp only [after, TimerService.sweep, h, if_true]
    exact ⟨trivial, trivial, List.Sublist.refl _⟩
  | start n =>
    refine ⟨?_, ?_, due_start r n ▸ List.eraseIdx_sublist ..⟩ <;> rw [service_start]
    exact h
  | finish n e =>
    rw [service_finish]
    exact ⟨h, rfl, List.Sublist.refl _⟩

/-! ## Runs -/

theorem TimerQueue.Sound.erase_running {q : TimerQueue τ} (h : q.Sound) (id : Nat) :
    ({ q with running := q.running.erase id } : TimerQueue τ).Sound :=
  { h with running := h.running.erase id }

/-- The queue stays sound, for a timer that is put into it waits there no longer. -/
theorem Kept.queue_receive (h : r.Kept) : (r.after .receive).service.queue.Sound := by
  cases hstopped : r.service.stopped with
  | true =>
    have hsame : (r.after .receive).service.queue = r.service.queue := by
      simp only [after, TimerService.receive, hstopped, if_true]
      split <;> rfl
    exact hsame ▸ h.queue
  | false =>
    cases hletters : r.service.letters with
    | nil =>
      have hsame : r.after .receive = r := by simp only [after, TimerService.receive, hletters]
      rw [hsame]
      exact h.queue
    | cons l ls =>
      cases l with
      | shutdown =>
        simp only [after, TimerService.receive, hletters, hstopped, Bool.false_eq_true, if_false,
          TimerService.read]
        exact h.queue
      | cancel id' =>
        simp only [after, TimerService.receive, hletters, hstopped, Bool.false_eq_true, if_false,
          TimerService.read]
        exact h.queue.cancel id'
      | insert t =>
        obtain ⟨s, hs⟩ := h.stands t.id
        obtain ⟨rfl, -⟩ := hs.posted hletters rfl
        simp only [after, TimerService.receive, hletters, hstopped, Bool.false_eq_true, if_false,
          TimerService.read]
        exact h.queue.insert hs.waiting
      | finished id' =>
        obtain ⟨s, hs⟩ := h.stands id'
        obtain ⟨t, rfl, -⟩ := hs.reported hletters
        obtain ⟨rfl, hperiodic⟩ := hs.fits
        obtain ⟨i, hinterval⟩ := Option.isSome_iff_exists.mp hperiodic
        rw [receive_finished hletters hstopped hs.running hinterval]
        dsimp only
        have herased := TimerQueue.Sound.erase_running h.queue t.id
        split
        · exact herased
        · exact herased.insert hs.waiting

theorem Kept.queue_sweep (h : r.Kept) : (r.after .sweep).service.queue.Sound := by
  cases hstopped : r.service.stopped with
  | true =>
    have hsame : r.after .sweep = r := by simp only [after, TimerService.sweep, hstopped, if_true]
    rw [hsame]
    exact h.queue
  | false =>
    rw [after_sweep hstopped]
    have htaken := h.queue.takeDue r.service.now
    exact { htaken with running := TimerService.distinct_foldl_insert _ h.queue.running }

/-- A number that is not given out stays so, unless a timer is added. -/
theorem Kept.fresh_after (h : r.Kept) (hid : (r.after m).service.nextId ≤ id) :
    (r.after m).Stands id .absent ∧ (r.after m).story id = r.story id := by
  rw [nextId_after] at hid
  obtain ⟨ns, s', hpasses, hs', hstory⟩ := h.lands (h.fresh id (by omega)) m
  cases hpasses with
  | stays => exact ⟨hs', hstory.trans (List.append_nil _)⟩
  | added fresh =>
    subst fresh
    exact absurd hid (Nat.not_succ_le_self _)

theorem Kept.after (h : r.Kept) (m : TimerMove τ) : (r.after m).Kept where
  queue := by
    by_cases hreceive : m = .receive
    · exact hreceive ▸ h.queue_receive
    by_cases hsweep : m = .sweep
    · exact hsweep ▸ h.queue_sweep
    exact (queue_after r hreceive hsweep).1 ▸ h.queue
  marked id hid := by
    obtain hid | rfl := cancel_mem_after hid
    · exact cancelled_after r m (h.marked id hid)
    · exact r.service.mem_cancel id
  stands id := by
    obtain ⟨s, hs⟩ := h.stands id
    obtain ⟨ns, s', -, hs', -⟩ := h.lands hs m
    exact ⟨s', hs'⟩
  fresh id hid := (h.fresh_after hid).1
  untold id hid := by
    have hbefore : r.service.nextId ≤ id := by
      rw [nextId_after] at hid
      omega
    exact (h.fresh_after hid).2.trans (h.untold id hbefore)

theorem kept_empty : ({} : TimerRun τ).Kept where
  queue := TimerQueue.sound_empty
  marked _ h := absurd h List.not_mem_nil
  stands _ := ⟨.absent, rfl, rfl, rfl, rfl, rfl, trivial⟩
  fresh _ _ := ⟨rfl, rfl, rfl, rfl, rfl, trivial⟩
  untold _ _ := rfl

theorem kept_run (ms : List (TimerMove τ)) : (run ms).Kept := by
  induction ms using List.reverseRecOn with
  | nil => exact kept_empty
  | append_singleton ms m ih =>
    rw [run_snoc]
    exact ih.after m

/-- A sweep leaves nothing that is due. -/
theorem Kept.swept (h : r.Kept) (hworks : r.service.stopped = false) :
    ((r.after .sweep).service.queue.takeDue (r.after .sweep).service.now).1 = [] := by
  refine List.eq_nil_iff_forall_not_mem.mpr fun t ht => ?_
  obtain ⟨hwaits, hdue⟩ := ((h.after .sweep).queue.mem_takeDue _ t).mp ht
  rw [after_sweep hworks] at hwaits hdue
  dsimp only at hwaits hdue
  rw [h.queue.takeDue_waiting, Option.filter_eq_some_iff] at hwaits
  exact Nat.not_le.mpr (of_decide_eq_true hwaits.2) hdue

/-! ## One timer -/

/-- Each move is made where it may be. -/
def Along (P : TimerRun τ → TimerMove τ → Prop) (ms : List (TimerMove τ)) : Prop :=
  ∀ earlier m later, ms = earlier ++ m :: later → P (run earlier) m

variable {P : TimerRun τ → TimerMove τ → Prop}

theorem Along.always {ms : List (TimerMove τ)} (h : ∀ r m, P r m) : Along P ms :=
  fun _ _ _ _ => h _ _

theorem Along.of_append {ms ms' : List (TimerMove τ)} (h : Along P (ms ++ ms')) : Along P ms :=
  fun earlier m later hms => h earlier m (later ++ ms') (by rw [hms, List.append_assoc]; rfl)

theorem Along.append {ms ms' : List (TimerMove τ)} (h : Along P ms)
    (h' : ∀ earlier m later, ms' = earlier ++ m :: later → P (run (ms ++ earlier)) m) :
    Along P (ms ++ ms') := by
  intro earlier m later hms
  obtain ⟨rest, rfl, hrest⟩ | ⟨rest, hearlier, hrest⟩ := List.append_eq_append_iff.mp hms
  · exact h' rest m later hrest
  · cases rest with
    | nil =>
      obtain rfl : earlier = ms := by simpa using hearlier.symm
      simpa using h' [] m later hrest.symm
    | cons m' rest =>
      obtain ⟨rfl, -⟩ := List.cons.inj hrest
      exact h earlier m rest hearlier

theorem Along.snoc {ms : List (TimerMove τ)} (h : Along P ms) (hm : P (run ms) m) :
    Along P (ms ++ [m]) :=
  h.append fun earlier m' later hms => by
    cases earlier with
    | nil =>
      obtain ⟨rfl, -⟩ := List.cons.inj hms
      rwa [List.append_nil]
    | cons => simp at hms

theorem Along.last {ms : List (TimerMove τ)} (h : Along P (ms ++ [m])) : P (run ms) m :=
  h ms m [] rfl

section follow

variable {before : List (TimerMove τ)} {task : τ} {delay : Nat} {interval : Option Nat}
  {policy : FiringPolicy}

/-- Of a timer that is added nothing has been told. -/
theorem story_added : (run (before ++ [.add task delay interval policy])).story
    (run before).service.nextId = [] := by
  rw [run_snoc]
  exact (story_snoc _ (run before) _ _ _).trans
    (by rw [(kept_run before).untold _ (Nat.le_refl _)]; rfl)

theorem stands_added : (run (before ++ [.add task delay interval policy])).Stands
    (run before).service.nextId (.posted ((run before).newTimer task delay interval policy)) := by
  have hkept := kept_run before
  rw [run_snoc]
  obtain ⟨ns, s', hpasses, hs', -⟩ :=
    hkept.lands (hkept.fresh _ (Nat.le_refl _)) (.add task delay interval policy)
  cases hpasses with
  | added => exact hs'
  | stays =>
    -- The letter that adds the timer is there.
    have hletters : (_ ++ [_] : List (TimerLetter τ)).filter _ = [] := hs'.letters
    rw [List.filter_append, List.append_eq_nil_iff] at hletters
    simp at hletters

/-- A timer is followed from the call that adds it: what holds of it there, and is kept by all that
can happen to it, holds ever after. -/
theorem follow {I : TimerRun τ → Stage τ → Prop}
    (base : I (run (before ++ [.add task delay interval policy]))
      (.posted ((run before).newTimer task delay interval policy)))
    (step : ∀ r m s ns s', P r m → (run before).service.nextId < r.service.nextId →
      r.Stands (run before).service.nextId s → r.Passes (run before).service.nextId m s ns s' →
      (r.after m).story (run before).service.nextId =
        r.story (run before).service.nextId ++ ns → I r s → I (r.after m) s')
    {later : List (TimerMove τ)}
    (hlater : Along P (before ++ .add task delay interval policy :: later)) :
    ∃ s, (run (before ++ .add task delay interval policy :: later)).Stands
      (run before).service.nextId s ∧
      I (run (before ++ .add task delay interval policy :: later)) s := by
  rw [List.append_cons] at hlater ⊢
  suffices h : (run before).service.nextId <
      (run (before ++ [.add task delay interval policy] ++ later)).service.nextId ∧ _ from h.2
  induction later using List.reverseRecOn with
  | nil =>
    rw [List.append_nil]
    refine ⟨?_, _, stands_added, base⟩
    rw [run_snoc, nextId_after]
    exact Nat.lt_succ_self _
  | append_singleton later m ih =>
    rw [← List.append_assoc] at hlater ⊢
    obtain ⟨hid, s, hs, hI⟩ := ih hlater.of_append
    obtain ⟨ns, s', hpasses, hs', hstory⟩ := (kept_run _).lands hs m
    rw [run_snoc]
    refine ⟨?_, s', hs', step _ m s ns s' hlater.last hid hs hpasses hstory hI⟩
    rw [nextId_after]
    omega

end follow

end TimerRun
end PeerLink
