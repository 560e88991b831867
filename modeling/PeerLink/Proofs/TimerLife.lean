import PeerLink.Timer.Worker

/-! # Timers that may still fire

* `TimerService.Holds`, `Worker.Holds`: a timer of a number is somewhere in a service, or waits with
  its firing for the worker.
* `TimerService.Fades`, `Worker.Fades`: what becomes of timers when none is added.
* `Worker.Live`: a timer that is held and has not been cancelled. One is added by `Worker.every`,
  and `Worker.cancel` ends it at once.
-/

namespace PeerLink
set_option autoImplicit false

variable {τ : Type}

theorem Table.get?_of_foldl_erase {α β : Type} {k : Nat} {a : α} (key : β → Nat) :
    ∀ (bs : List β) {t : Table Nat α},
      (bs.foldl (fun t b => t.erase (key b)) t).get? k = some a → t.get? k = some a
  | [], _, h => h
  | b :: bs, t, h => by
    have hrest := get?_of_foldl_erase key bs h
    rw [Table.get?_erase] at hrest
    split at hrest
    · cases hrest
    · exact hrest

namespace TimerService

/-- A timer of this number waits to be added, waits for its time, fires, or is due. -/
inductive Holds (s : TimerService τ) (id : Nat) : Prop
  | letter {t : Timer τ} (h : .insert t ∈ s.letters) (hid : t.id = id)
  | waiting {k : Nat} {t : Timer τ} (h : s.queue.waiting.get? k = some t) (hid : t.id = id)
  | running {k : Nat} {t : Timer τ} (h : s.queue.running.get? k = some t) (hid : t.id = id)
  | due {t : Timer τ} (h : t ∈ s.due) (hid : t.id = id)

/-- No timer is added, and none that was cancelled is so no longer. -/
structure Fades (s s' : TimerService τ) : Prop where
  held : ∀ id, s'.Holds id → s.Holds id
  cancelled : s.cancelled ⊆ s'.cancelled

variable {s s' s'' : TimerService τ}

theorem Fades.refl (s : TimerService τ) : s.Fades s := ⟨fun _ h => h, fun _ h => h⟩

theorem Fades.trans (h : s.Fades s') (h' : s'.Fades s'') : s.Fades s'' :=
  ⟨fun id hid => h.held id (h'.held id hid), fun _ hid => h'.cancelled (h.cancelled hid)⟩

/-- Letters, queues and firings that are all there already. -/
theorem Fades.of_parts (hletters : ∀ t, .insert t ∈ s'.letters → .insert t ∈ s.letters)
    (hwaiting : ∀ k t, s'.queue.waiting.get? k = some t → s.queue.waiting.get? k = some t)
    (hrunning : ∀ k t, s'.queue.running.get? k = some t → s.queue.running.get? k = some t)
    (hdue : s'.due ⊆ s.due) (hcancelled : s.cancelled ⊆ s'.cancelled) : s.Fades s' := by
  refine ⟨fun id hid => ?_, hcancelled⟩
  cases hid with
  | letter h hid => exact .letter (hletters _ h) hid
  | waiting h hid => exact .waiting (hwaiting _ _ h) hid
  | running h hid => exact .running (hrunning _ _ h) hid
  | due h hid => exact .due (hdue h) hid

/-! ## Letters -/

theorem send_fades (s : TimerService τ) {l : TimerLetter τ} (hl : ∀ t, l ≠ .insert t) :
    s.Fades (s.send l) := by
  refine .of_parts (fun t ht => ?_) (fun _ _ h => h) (fun _ _ h => h) (fun _ h => h) fun _ h => h
  obtain ht | ht := List.mem_append.mp ht
  · exact ht
  · exact absurd (List.mem_singleton.mp ht).symm (hl t)

theorem mark_fades (s : TimerService τ) (id : Nat) : s.Fades (s.mark id) := by
  unfold mark
  split
  · exact .refl s
  · exact .of_parts (fun _ h => h) (fun _ _ h => h) (fun _ _ h => h) (fun _ h => h)
      (List.subset_append_left _ _)

theorem mem_mark (s : TimerService τ) (id : Nat) : id ∈ (s.mark id).cancelled := by
  unfold mark
  split
  · rename_i h
    exact List.contains_iff_mem.mp h
  · exact List.mem_append_right _ List.mem_cons_self

theorem cancel_fades (s : TimerService τ) (id : Nat) : s.Fades (s.cancel id) := by
  unfold cancel
  split
  · exact .refl s
  · exact (s.mark_fades id).trans (send_fades _ (by exact nofun))

theorem mem_cancel (s : TimerService τ) (id : Nat) : id ∈ (s.cancel id).cancelled := by
  unfold cancel
  split
  · rename_i h
    exact List.contains_iff_mem.mp h
  · exact s.mem_mark id

/-- A timer that is put back was there before. -/
theorem holds_reschedule {t : Timer τ} {id : Nat} (h : (s.reschedule t).Holds id) :
    s.Holds id ∨ t.id = id := by
  unfold reschedule at h
  split at h
  · exact .inl h
  · cases hinterval : t.interval with
    | none =>
      rw [hinterval] at h
      exact .inl h
    | some i =>
      rw [hinterval] at h
      cases h with
      | letter h hid => exact .inl (.letter h hid)
      | running h hid => exact .inl (.running h hid)
      | due h hid => exact .inl (.due h hid)
      | waiting h hid =>
        simp only [TimerQueue.insert, Table.get?_insert] at h
        split at h
        · exact .inr ((congrArg Timer.id (Option.some.inj h)).trans hid)
        · exact .inl (.waiting h hid)

theorem reschedule_cancelled (s : TimerService τ) (t : Timer τ) :
    (s.reschedule t).cancelled = s.cancelled := by
  unfold reschedule
  split
  · rfl
  · cases t.interval <;> rfl

theorem get?_cancel {q : TimerQueue τ} {id k : Nat} {t : Timer τ}
    (h : (q.cancel id).waiting.get? k = some t) : q.waiting.get? k = some t := by
  unfold TimerQueue.cancel at h
  split at h
  · exact h
  · rw [Table.get?_erase] at h
    split at h
    · cases h
    · exact h

theorem cancel_running (q : TimerQueue τ) (id : Nat) : (q.cancel id).running = q.running := by
  unfold TimerQueue.cancel
  split <;> rfl

theorem read_fades {l : TimerLetter τ} {letters : List (TimerLetter τ)}
    (hletters : s.letters = l :: letters) : s.Fades ({ s with letters }.read l) := by
  have hmem : letters ⊆ s.letters := hletters ▸ List.subset_cons_self l letters
  have htail : s.Fades { s with letters } :=
    .of_parts (fun _ h => hmem h) (fun _ _ h => h) (fun _ _ h => h) (fun _ h => h) fun _ h => h
  cases l with
  | insert t =>
    refine ⟨fun id h => ?_, fun _ h => h⟩
    cases h with
    | letter h hid => exact .letter (hmem h) hid
    | running h hid => exact .running h hid
    | due h hid => exact .due h hid
    | waiting h hid =>
      simp only [read, TimerQueue.insert, Table.get?_insert] at h
      split at h
      · exact .letter (hletters ▸ List.mem_cons_self) (Option.some.inj h ▸ hid)
      · exact .waiting h hid
  | cancel id =>
    refine htail.trans (.of_parts (fun _ h => h) (fun _ _ h => get?_cancel h) (fun k t h => ?_)
      (fun _ h => h) fun _ h => h)
    rwa [← cancel_running s.queue id]
  | shutdown =>
    exact htail.trans
      (.of_parts (fun _ h => h) (fun _ _ h => h) (fun _ _ h => h) (fun _ h => h) fun _ h => h)
  | finished id =>
    simp only [read]
    cases hrun : s.queue.running.get? id with
    | none => exact htail
    | some t =>
      refine ⟨fun id' h => ?_, fun _ h => ?_⟩
      · obtain h | h := holds_reschedule h
        · cases h with
          | letter h hid => exact .letter (hmem h) hid
          | waiting h hid => exact .waiting h hid
          | due h hid => exact .due h hid
          | running h hid =>
            rw [Table.get?_erase] at h
            split at h
            · cases h
            · exact .running h hid
        · exact .running hrun h
      · rwa [reschedule_cancelled]

theorem receive_fades (s : TimerService τ) : s.Fades s.receive := by
  unfold receive
  cases hletters : s.letters with
  | nil => exact .refl s
  | cons l letters =>
    dsimp only
    split
    · have hmem : letters ⊆ s.letters := hletters ▸ List.subset_cons_self l letters
      exact .of_parts (fun _ h => hmem h) (fun _ _ h => h) (fun _ _ h => h) (fun _ h => h)
        fun _ h => h
    · exact read_fades hletters

theorem receiveAll_fades (s : TimerService τ) : s.Fades s.receiveAll := by
  have hall : ∀ (ls : List (TimerLetter τ)) (s : TimerService τ),
      s.Fades (ls.foldl (fun s _ => s.receive) s) := by
    intro ls
    induction ls with
    | nil => exact .refl
    | cons l ls ih => exact fun s => s.receive_fades.trans (ih s.receive)
  exact hall s.letters s

/-! ## Firings -/

theorem holds_fire {t : Timer τ} {id : Nat} (h : (s.fire t).Holds id) : s.Holds id ∨ t.id = id := by
  unfold fire at h
  split at h
  · exact .inl h
  · cases h with
    | letter h hid => exact .inl (.letter h hid)
    | due h hid =>
      obtain h | h := List.mem_append.mp h
      · exact .inl (.due h hid)
      · exact .inr (List.mem_singleton.mp h ▸ hid)
    | waiting h hid =>
      dsimp only at h
      split at h
      · exact .inl (.waiting h hid)
      · exact .inl (.waiting h hid)
    | running h hid =>
      dsimp only at h
      split at h
      · rw [Table.get?_insert] at h
        split at h
        · exact .inr (Option.some.inj h ▸ hid)
        · exact .inl (.running h hid)
      · exact .inl (.running h hid)

theorem fire_cancelled (s : TimerService τ) (t : Timer τ) : (s.fire t).cancelled = s.cancelled := by
  unfold fire
  split <;> rfl

theorem holds_foldl_fire : ∀ (ts : List (Timer τ)) {s : TimerService τ} {id : Nat},
    (ts.foldl fire s).Holds id → s.Holds id ∨ ∃ t ∈ ts, t.id = id
  | [], _, _, h => .inl h
  | t :: ts, s, id, h => by
    obtain h | ⟨t', ht', hid⟩ := holds_foldl_fire ts h
    · refine (holds_fire h).imp_right fun hid => ⟨t, List.mem_cons_self, hid⟩
    · exact .inr ⟨t', List.mem_cons_of_mem t ht', hid⟩

theorem foldl_fire_cancelled (ts : List (Timer τ)) (s : TimerService τ) :
    (ts.foldl fire s).cancelled = s.cancelled := by
  induction ts generalizing s with
  | nil => rfl
  | cons t ts ih => rw [List.foldl_cons, ih, fire_cancelled]

theorem sweep_fades (s : TimerService τ) : s.Fades s.sweep := by
  unfold sweep
  split
  · exact .refl s
  · refine ⟨fun id h => ?_, fun _ h => ?_⟩
    · obtain h | ⟨t, ht, hid⟩ := holds_foldl_fire _ h
      · cases h with
        | letter h hid => exact .letter h hid
        | running h hid => exact .running h hid
        | due h hid => exact .due h hid
        | waiting h hid => exact .waiting (Table.get?_of_foldl_erase Deadline.id _ h) hid
      -- What fires was waiting before it was taken out of the queue.
      · obtain ⟨d, -, hd⟩ := List.mem_filterMap.mp ht
        exact .waiting hd hid
    · dsimp only
      rwa [foldl_fire_cancelled]

theorem rest_fades (s : TimerService τ) : s.Fades s.rest :=
  s.receiveAll_fades.trans (sweep_fades _)

end TimerService

/-! ## The worker -/

namespace Worker

def Holds (w : Worker τ) (id : Nat) : Prop :=
  w.timers.Holds id ∨ ∃ t, .firing t ∈ w.queue ∧ t.id = id

/-- A timer that may still fire. -/
def Live (w : Worker τ) (id : Nat) : Prop := w.Holds id ∧ id ∉ w.timers.cancelled

structure Fades (w w' : Worker τ) : Prop where
  held : ∀ id, w'.Holds id → w.Holds id
  cancelled : w.timers.cancelled ⊆ w'.timers.cancelled

variable {w w' w'' : Worker τ}

theorem Fades.refl (w : Worker τ) : w.Fades w := ⟨fun _ h => h, fun _ h => h⟩

theorem Fades.trans (h : w.Fades w') (h' : w'.Fades w'') : w.Fades w'' :=
  ⟨fun id hid => h.held id (h'.held id hid), fun _ hid => h'.cancelled (h.cancelled hid)⟩

theorem Fades.live (h : w.Fades w') {id : Nat} (hlive : w'.Live id) : w.Live id :=
  ⟨h.held id hlive.1, fun hid => hlive.2 (h.cancelled hid)⟩

theorem Fades.of_timers {timers : TimerService τ} (h : w.timers.Fades timers) :
    w.Fades { w with timers } :=
  ⟨fun id hid => hid.imp_left (h.held id), h.cancelled⟩

theorem Fades.of_queue {queue : List (Work τ)}
    (h : ∀ t, .firing t ∈ queue → .firing t ∈ w.queue) : w.Fades { w with queue } :=
  ⟨fun _ hid => hid.imp_right fun ⟨t, ht, hid⟩ => ⟨t, h t ht, hid⟩, fun _ h => h⟩

theorem submit_fades (w : Worker τ) (ts : List τ) : w.Fades (w.submit ts) := by
  refine .of_queue fun t ht => ?_
  obtain ht | ht := List.mem_append.mp ht
  · exact ht
  · obtain ⟨x, -, hx⟩ := List.mem_map.mp ht
    cases hx

theorem wake_fades (w : Worker τ) : w.Fades w.wake := by
  have hrest := w.timers.rest_fades
  refine ⟨fun id h => ?_, hrest.cancelled⟩
  obtain h | ⟨t, ht, hid⟩ := h
  · refine .inl (hrest.held id ?_)
    cases h with
    | letter h hid => exact .letter h hid
    | waiting h hid => exact .waiting h hid
    | running h hid => exact .running h hid
    | due h hid => exact absurd h List.not_mem_nil
  · obtain ht | ht := List.mem_append.mp ht
    · exact .inr ⟨t, ht, hid⟩
    · obtain ⟨t', ht', he⟩ := List.mem_map.mp ht
      obtain rfl := Work.firing.inj he
      exact .inl (hrest.held id (.due ht' hid))

theorem advance_fades (w : Worker τ) (ms : Nat) : w.Fades (w.advance ms) := by
  have htime : w.timers.Fades (w.timers.advance ms) :=
    .of_parts (fun _ h => h) (fun _ _ h => h) (fun _ _ h => h) (fun _ h => h) fun _ h => h
  exact (Fades.of_timers htime).trans (wake_fades _)

theorem cancel_fades (w : Worker τ) (id : Nat) : w.Fades (w.cancel id) :=
  (Fades.of_timers (w.timers.cancel_fades id)).trans (wake_fades _)

theorem not_live_start {id : Nat} : ¬ ({} : Worker τ).Live id := by
  rintro ⟨(h | ⟨t, ht, -⟩), -⟩
  · cases h with
    | letter h | due h => cases h
    | waiting h | running h => cases h
  · cases ht

theorem cancel_not_live (w : Worker τ) (id : Nat) : ¬ (w.cancel id).Live id := fun h =>
  h.2 ((wake_fades { w with timers := w.timers.cancel id }).cancelled (w.timers.mem_cancel id))

/-- One timer is added. -/
theorem live_every {interval : Nat} {task : τ} {id : Nat} (h : (w.every interval task).2.Live id) :
    w.Live id ∨ id = (w.every interval task).1 := by
  have hwake := wake_fades { w with timers := (w.timers.add task interval (some interval)).2 }
  obtain ⟨hheld, hcancelled⟩ := hwake.live h
  obtain hheld | hqueue := hheld
  · cases hheld with
    | letter h hid =>
      obtain h | h := List.mem_append.mp h
      · exact .inl ⟨.inl (.letter h hid), hcancelled⟩
      · obtain rfl := TimerLetter.insert.inj (List.mem_singleton.mp h)
        exact .inr hid.symm
    | waiting h hid => exact .inl ⟨.inl (.waiting h hid), hcancelled⟩
    | running h hid => exact .inl ⟨.inl (.running h hid), hcancelled⟩
    | due h hid => exact .inl ⟨.inl (.due h hid), hcancelled⟩
  · exact .inl ⟨.inr hqueue, hcancelled⟩

theorem start_fades (w : Worker τ) (x : Work τ) : w.Fades (w.start x).2 := by
  cases x with
  | task t => exact .refl w
  | firing t =>
    refine .of_timers ?_
    split
    · exact .refl _
    · exact w.timers.mark_fades t.id

theorem finish_fades (w : Worker τ) (x : Work τ) : w.Fades (w.finish x) := by
  cases x with
  | task t => exact .refl w
  | firing t =>
    refine (Fades.of_timers ?_).trans (wake_fades _)
    unfold TimerService.finish
    split
    · exact TimerService.send_fades _ (by exact nofun)
    · exact .refl _

end Worker
end PeerLink
