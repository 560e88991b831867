import PeerLink.Proofs.TimerRuns

/-! # What one move does to a timer

* `TimerRun.Kept`: what holds of every run: each timer is at one stage.
* `TimerRun.Lands`: a move takes a timer to another stage, in one of the ways of `TimerRun.Passes`.
* `TimerRun.Kept.lands`: each move does so with every timer.
-/

namespace PeerLink
set_option autoImplicit false

variable {τ : Type}

theorem filter_eraseIdx_of_neg {α : Type} {p : α → Bool} : ∀ {l : List α} {n : Nat} {a : α},
    l[n]? = some a → p a = false → (l.eraseIdx n).filter p = l.filter p
  | [], _, _, h, _ => by cases h
  | b :: l, 0, a, h, ha => by
    obtain rfl : b = a := by simpa using h
    simp [ha]
  | b :: l, n + 1, a, h, ha => by
    have ih := filter_eraseIdx_of_neg (l := l) (n := n) (by simpa using h) ha
    simp only [List.eraseIdx_cons_succ, List.filter_cons, ih]

theorem filter_eraseIdx_of_pos {α : Type} {p : α → Bool} : ∀ {l : List α} {n : Nat} {a b : α},
    l[n]? = some a → p a = true → l.filter p = [b] → a = b ∧ (l.eraseIdx n).filter p = []
  | [], _, _, _, h, _, _ => by cases h
  | c :: l, 0, a, b, h, ha, hl => by
    obtain rfl : c = a := by simpa using h
    rw [List.filter_cons_of_pos ha] at hl
    obtain ⟨rfl, hnil⟩ := List.cons.inj hl
    exact ⟨rfl, hnil⟩
  | c :: l, n + 1, a, b, h, ha, hl => by
    have hn : l[n]? = some a := by simpa using h
    rw [List.eraseIdx_cons_succ]
    cases hc : p c with
    | true =>
      rw [List.filter_cons_of_pos hc] at hl
      have hmem : a ∈ l.filter p := List.mem_filter.mpr ⟨List.mem_of_getElem? hn, ha⟩
      rw [(List.cons.inj hl).2] at hmem
      cases hmem
    | false =>
      have hc' : ¬ p c = true := by simp [hc]
      rw [List.filter_cons_of_neg hc'] at hl ⊢
      exact filter_eraseIdx_of_pos hn ha hl

namespace TimerService

theorem isCancelled_iff {s : TimerService τ} {id : Nat} :
    s.isCancelled id = true ↔ id ∈ s.cancelled := List.contains_iff_mem

/-- A firing of a periodic timer has ended: the timer is put back unless it was cancelled. -/
theorem reschedule_eq (s : TimerService τ) {t : Timer τ} {i : Nat} (h : t.interval = some i) :
    s.reschedule t =
      { s with queue :=
        if t.id ∈ s.cancelled then s.queue
        else s.queue.insert { t with nextRun := t.policy.nextRun t.nextRun i s.now } } := by
  unfold reschedule
  by_cases hc : t.id ∈ s.cancelled
  · rw [if_pos (isCancelled_iff.mpr hc), if_pos hc]
  · rw [if_neg (mt isCancelled_iff.mp hc), if_neg hc, h]

/-! ## What a call leaves alone -/

theorem reschedule_queue (s : TimerService τ) (t : Timer τ) :
    s.reschedule t = { s with queue := (s.reschedule t).queue } := by
  unfold reschedule
  split
  · rfl
  · split <;> rfl

theorem read_eq (s : TimerService τ) (l : TimerLetter τ) :
    s.read l = { s with queue := (s.read l).queue, stopped := (s.read l).stopped } := by
  cases l with
  | finished id =>
    simp only [read]
    cases s.queue.running.get? id with
    | none => rfl
    | some t =>
      dsimp only
      rw [reschedule_queue]
  | _ => rfl

theorem receive_eq (s : TimerService τ) :
    s.receive =
      { s with
        letters := s.letters.tail
        queue := s.receive.queue
        stopped := s.receive.stopped } := by
  unfold receive
  split
  · rename_i hletters
    rw [hletters]
    cases s
    cases hletters
    rfl
  · rename_i l ls hletters
    rw [hletters]
    dsimp only
    split
    · rfl
    · exact read_eq { s with letters := ls } l

/-! ## What is due is handed over -/

variable (s : TimerService τ)

/-- Of timers that are fired, those that have not been cancelled. -/
def firing (ts : List (Timer τ)) : List (Timer τ) := ts.filter fun t => !s.isCancelled t.id

/-- To fire timers hands those over that have not been cancelled, and counts the periodic ones. -/
theorem foldl_fire_eq (ts : List (Timer τ)) :
    ts.foldl fire s =
      { s with
        queue :=
          { s.queue with
            running := ((s.firing ts).filter (·.isPeriodic)).foldl (fun w t => w.insert t.id t)
              s.queue.running }
        due := s.due ++ s.firing ts } := by
  induction ts generalizing s with
  | nil => simp [firing]
  | cons t ts ih =>
    rw [List.foldl_cons, ih]
    by_cases hc : s.isCancelled t.id = true
    · have hfire : s.fire t = s := if_pos hc
      simp only [hfire, firing, List.filter_cons, hc, Bool.not_true, Bool.false_eq_true, if_false]
    · have hfire : s.fire t = _ := if_neg hc
      have hsame : ∀ ts, (s.fire t).firing ts = s.firing ts := by
        intro ts
        rw [hfire]
        rfl
      have hc' : s.isCancelled t.id = false := by simpa using hc
      rw [hsame, hfire]
      by_cases hp : t.interval.isSome = true
      · simp [firing, hc', Timer.isPeriodic, hp]
      · simp [firing, hc', Timer.isPeriodic, hp]

theorem sweep_eq : s.sweep = { s with queue := s.sweep.queue, due := s.sweep.due } := by
  unfold sweep
  split
  · rfl
  · simp only [foldl_fire_eq]

theorem get?_foldl_insert (id : Nat) : ∀ (ts : List (Timer τ)) (w : Table Nat (Timer τ)),
    (ts.foldl (fun w t => w.insert t.id t) w).get? id =
      ((ts.filter (·.id = id)).getLast?).or (w.get? id)
  | [], w => by simp
  | t :: ts, w => by
    rw [List.foldl_cons, get?_foldl_insert id ts, Table.get?_insert]
    by_cases hid : t.id = id
    · rw [List.filter_cons_of_pos (by simpa using hid), if_pos hid.symm, List.getLast?_cons]
      cases (ts.filter (·.id = id)).getLast? <;> rfl
    · rw [List.filter_cons_of_neg (by simpa using hid), if_neg (Ne.symm hid)]

theorem distinct_foldl_insert : ∀ (ts : List (Timer τ)) {w : Table Nat (Timer τ)}, w.Distinct →
    (ts.foldl (fun w t => w.insert t.id t) w).Distinct
  | [], _, h => h
  | t :: ts, _, h => distinct_foldl_insert ts (h.insert t.id t)

end TimerService

/-- Of the timers of one number at most one is detached: the one that waits, if it is due. -/
theorem TimerQueue.Sound.filter_takeDue {q : TimerQueue τ} (h : q.Sound) (now id : Nat) :
    (q.takeDue now).1.filter (·.id = id) =
      ((q.waiting.get? id).filter (·.nextRun ≤ now)).toList := by
  have hnodup : ((q.takeDue now).1.map Timer.deadline).Nodup := by
    rw [h.takeDue_fst]
    exact h.ordered.nodup.filter _
  have hmem : ∀ t, t ∈ (q.takeDue now).1.filter (·.id = id) ↔
      t ∈ ((q.waiting.get? id).filter (·.nextRun ≤ now)).toList := by
    intro t
    rw [List.mem_filter, h.mem_takeDue, Option.mem_toList, Option.filter_eq_some_iff]
    constructor
    · rintro ⟨⟨ht, hle⟩, hid⟩
      obtain rfl : t.id = id := by simpa using hid
      exact ⟨ht, by simpa using hle⟩
    · rintro ⟨ht, hle⟩
      obtain rfl := h.named id t ht
      exact ⟨⟨ht, by simpa using hle⟩, by simp⟩
  have hlist : ((q.takeDue now).1.filter (·.id = id)).Nodup := (List.Nodup.of_map _ hnodup).filter _
  have hoption : ((q.waiting.get? id).filter (·.nextRun ≤ now)).toList.Nodup := by
    cases (q.waiting.get? id).filter (·.nextRun ≤ now) <;> simp
  have hperm := (List.perm_ext_iff_of_nodup hlist hoption).mpr hmem
  cases ho : (q.waiting.get? id).filter (·.nextRun ≤ now) with
  | none =>
    rw [ho] at hperm
    exact hperm.eq_nil
  | some t =>
    rw [ho] at hperm
    exact List.perm_singleton.mp hperm

namespace TimerRun

/-! ## Timers at their stages -/

/-- What holds of every run. -/
structure Kept (r : TimerRun τ) : Prop where
  queue : r.service.queue.Sound
  /-- A timer is marked before the letter that cancels it is sent. -/
  marked : ∀ id, .cancel id ∈ r.service.letters → id ∈ r.service.cancelled
  stands : ∀ id, ∃ s, r.Stands id s
  fresh : ∀ id, r.service.nextId ≤ id → r.Stands id .absent
  untold : ∀ id, r.service.nextId ≤ id → r.story id = []

/-- A move takes a timer to a stage where it can take it. -/
def Lands (r : TimerRun τ) (id : Nat) (s : Stage τ) (m : TimerMove τ) (r' : TimerRun τ) : Prop :=
  ∃ ns s', r.Passes id m s ns s' ∧ r'.Stands id s' ∧ r'.story id = r.story id ++ ns

variable {r r' : TimerRun τ} {id : Nat} {s : Stage τ} {m : TimerMove τ} {t : Timer τ}

theorem Stage.Fits.stop {stopped : Bool} (h : s.Fits stopped id) : s.Fits true id := by
  cases s with
  | stranded t => exact ⟨h.1, h.2.1, rfl⟩
  | _ => exact h

/-- A timer stays where it is if nothing that concerns it changes. -/
theorem Stands.congr (h : r.Stands id s)
    (letters : r'.service.letters.filter (·.about id) = r.service.letters.filter (·.about id))
    (waiting : r'.service.queue.waiting.get? id = r.service.queue.waiting.get? id)
    (running : r'.service.queue.running.get? id = r.service.queue.running.get? id)
    (due : r'.service.due.filter (·.id = id) = r.service.due.filter (·.id = id))
    (active : r'.active.filter (·.id = id) = r.active.filter (·.id = id))
    (stopped : r'.service.stopped = r.service.stopped ∨ r'.service.stopped = true) :
    r'.Stands id s where
  letters := letters.trans h.letters
  waiting := waiting.trans h.waiting
  running := running.trans h.running
  due := due.trans h.due
  active := active.trans h.active
  fits := by
    obtain hs | hs := stopped
    · exact hs ▸ h.fits
    · exact hs ▸ Stage.Fits.stop h.fits

theorem Stands.lands (h : r'.Stands id s) (story : r'.story id = r.story id) :
    r.Lands id s m r' :=
  ⟨[], s, .stays m s, h, story.trans (List.append_nil _).symm⟩

theorem story_snoc (id : Nat) (r : TimerRun τ) (service : TimerService τ) (active : List (Timer τ))
    (n : TimerNote τ) :
    (TimerRun.mk service active (r.notes ++ [n])).story id =
      r.story id ++ if n.about id then [n] else [] := by
  simp only [story, List.filter_append, List.filter_cons, List.filter_nil]

/-! ## Calls -/

theorem Stands.eq_absent (h : r.Stands id s) (h' : r.Stands id .absent) : s = .absent := by
  cases s with
  | absent => rfl
  | posted t | reported t => exact absurd (h.letters.symm.trans h'.letters) (List.cons_ne_nil _ _)
  | waiting t => exact absurd (h.waiting.symm.trans h'.waiting) nofun
  | due t => exact absurd (h.due.symm.trans h'.due) (List.cons_ne_nil _ _)
  | active t => exact absurd (h.active.symm.trans h'.active) (List.cons_ne_nil _ _)
  | stranded t => exact absurd (h.running.symm.trans h'.running) nofun

theorem lands_add (h : r.Kept) (hs : r.Stands id s) (task : τ) (delay : Nat)
    (interval : Option Nat) (policy : FiringPolicy) :
    r.Lands id s (.add task delay interval policy) (r.after (.add task delay interval policy)) := by
  have hstory := story_snoc id r (r.service.add task delay interval policy).2 r.active
    (.added (r.newTimer task delay interval policy))
  rw [TimerNote.about, if_neg Bool.false_ne_true, List.append_nil] at hstory
  have hletters : (r.after (.add task delay interval policy)).service.letters =
      r.service.letters ++ [.insert (r.newTimer task delay interval policy)] := rfl
  by_cases hid : r.service.nextId = id
  · have habsent := h.fresh id (Nat.le_of_eq hid)
    obtain rfl := hs.eq_absent habsent
    refine ⟨[], _, .added hid.symm, ⟨?_, habsent.waiting, habsent.running, habsent.due,
      habsent.active, hid⟩, hstory.trans (List.append_nil _).symm⟩
    have habout : (TimerLetter.insert (r.newTimer task delay interval policy)).about id = true :=
      decide_eq_true hid
    rw [hletters, List.filter_append, habsent.letters, List.filter_cons_of_pos habout]
    rfl
  · refine Stands.lands (hs.congr ?_ rfl rfl rfl rfl (.inl rfl)) hstory
    have habout : ¬ (TimerLetter.insert (r.newTimer task delay interval policy)).about id = true :=
      mt of_decide_eq_true hid
    rw [hletters, List.filter_append, List.filter_cons_of_neg habout]
    exact List.append_nil _

/-- Letters that concern no timer may be sent at any time. -/
theorem filter_send {l : TimerLetter τ} (hl : l.about id = false) (service : TimerService τ) :
    (service.send l).letters.filter (·.about id) = service.letters.filter (·.about id) := by
  rw [TimerService.send, List.filter_append, List.filter_cons_of_neg (by simpa using hl)]
  exact List.append_nil _

theorem lands_cancel (hs : r.Stands id s) (id' : Nat) :
    r.Lands id s (.cancel id') (r.after (.cancel id')) := by
  have hstory := story_snoc id r (r.service.cancel id') r.active (.cancelled id')
  rw [TimerNote.about, if_neg Bool.false_ne_true, List.append_nil] at hstory
  refine Stands.lands ?_ hstory
  by_cases hc : r.service.isCancelled id' = true
  · have hsame : r.service.cancel id' = r.service := if_pos hc
    refine hs.congr ?_ ?_ ?_ ?_ rfl (.inl ?_)
    all_goals simp only [after, hsame]
  · have hmark : r.service.cancel id' =
        { r.service with cancelled := r.service.cancelled ++ [id'] }.send (.cancel id') := by
      rw [TimerService.cancel, if_neg hc, TimerService.mark, if_neg hc]
    refine hs.congr ?_ ?_ ?_ ?_ rfl (.inl ?_)
    · simp only [after, hmark]
      exact filter_send rfl _
    all_goals
      simp only [after, hmark]
      rfl

/-! ## Letters -/

/-- A timer about which a letter is waiting is at the stage that the letter is for. -/
theorem Stands.posted {ls : List (TimerLetter τ)} (hs : r.Stands id s)
    (hletters : r.service.letters = .insert t :: ls) (hid : t.id = id) :
    s = .posted t ∧ ls.filter (·.about id) = [] := by
  have hfilter := hs.letters
  rw [hletters, List.filter_cons_of_pos (by simpa using hid)] at hfilter
  cases s with
  | posted u =>
    obtain ⟨hu, hnil⟩ := List.cons.inj hfilter
    obtain rfl := TimerLetter.insert.inj hu
    exact ⟨rfl, hnil⟩
  | reported u => exact absurd (List.cons.inj hfilter).1 nofun
  | _ => cases hfilter

theorem Stands.reported {ls : List (TimerLetter τ)} (hs : r.Stands id s)
    (hletters : r.service.letters = .finished id :: ls) :
    ∃ t, s = .reported t ∧ ls.filter (·.about id) = [] := by
  have hfilter := hs.letters
  rw [hletters, List.filter_cons_of_pos (by simp)] at hfilter
  cases s with
  | reported u => exact ⟨u, rfl, (List.cons.inj hfilter).2⟩
  | posted u => exact absurd (List.cons.inj hfilter).1 nofun
  | _ => cases hfilter

theorem filter_tail (id : Nat) {l : TimerLetter τ} {ls : List (TimerLetter τ)}
    (hletters : r.service.letters = l :: ls) (hl : l.about id = false) :
    ls.filter (·.about id) = r.service.letters.filter (·.about id) := by
  rw [hletters, List.filter_cons_of_neg (by simpa using hl)]

/-- A service that has stopped reads its letters no more. -/
theorem lands_receive_stopped (hs : r.Stands id s) (hstopped : r.service.stopped = true) :
    r.Lands id s .receive (r.after .receive) := by
  cases hletters : r.service.letters with
  | nil =>
    have hsame : r.after .receive = r := by simp only [after, TimerService.receive, hletters]
    rw [hsame]
    exact hs.lands rfl
  | cons l ls =>
    have hreceive : r.after .receive = { r with service := { r.service with letters := ls } } := by
      simp only [after, TimerService.receive, hletters, hstopped, if_true]
    rw [hreceive]
    cases hl : l.about id with
    | false =>
      exact Stands.lands (hs.congr (filter_tail id hletters hl) rfl rfl rfl rfl (.inl rfl)) rfl
    | true =>
      cases l with
      | cancel id' => cases hl
      | shutdown => cases hl
      | insert t =>
        obtain ⟨rfl, hrest⟩ := hs.posted hletters (by simpa using hl)
        exact ⟨[], .absent, .lost hstopped,
          ⟨hrest, hs.waiting, hs.running, hs.due, hs.active, trivial⟩, (List.append_nil _).symm⟩
      | finished id' =>
        obtain rfl : id' = id := by simpa using hl
        obtain ⟨t, rfl, hrest⟩ := hs.reported hletters
        exact ⟨[], .stranded t, .stranded hstopped,
          ⟨hrest, hs.waiting, hs.running, hs.due, hs.active, hs.fits.1, hs.fits.2, hstopped⟩,
          (List.append_nil _).symm⟩

theorem lands_insert {ls : List (TimerLetter τ)} (hs : r.Stands id s)
    (hletters : r.service.letters = .insert t :: ls) (hworks : r.service.stopped = false) :
    r.Lands id s .receive (r.after .receive) := by
  have hreceive : r.after .receive = { r with service :=
      { r.service with letters := ls, queue := r.service.queue.insert t } } := by
    simp only [after, TimerService.receive, hletters, hworks, Bool.false_eq_true, if_false,
      TimerService.read]
  rw [hreceive]
  have hwaiting : (r.service.queue.insert t).waiting.get? id =
      if id = t.id then some t else r.service.queue.waiting.get? id := Table.get?_insert ..
  by_cases hid : t.id = id
  · obtain ⟨rfl, hrest⟩ := hs.posted hletters hid
    refine ⟨[], .waiting t, .queued hworks,
      ⟨hrest, hwaiting.trans (if_pos hid.symm), hs.running, hs.due, hs.active, hid⟩,
      (List.append_nil _).symm⟩
  · have hrest := filter_tail id hletters (by simpa using hid)
    exact Stands.lands
      (hs.congr hrest (hwaiting.trans (if_neg (Ne.symm hid))) rfl rfl rfl (.inl rfl)) rfl

theorem lands_cancelled {ls : List (TimerLetter τ)} {id' : Nat} (h : r.Kept) (hs : r.Stands id s)
    (hletters : r.service.letters = .cancel id' :: ls) (hworks : r.service.stopped = false) :
    r.Lands id s .receive (r.after .receive) := by
  have hreceive : r.after .receive = { r with service :=
      { r.service with letters := ls, queue := r.service.queue.cancel id' } } := by
    simp only [after, TimerService.receive, hletters, hworks, Bool.false_eq_true, if_false,
      TimerService.read]
  rw [hreceive]
  have hwaiting := r.service.queue.get?_cancel_eq id' id
  have hrest := filter_tail id hletters rfl
  have hrunning : (r.service.queue.cancel id').running = r.service.queue.running := by
    unfold TimerQueue.cancel
    split <;> rfl
  by_cases hid : id = id'
  · subst hid
    rw [if_pos rfl] at hwaiting
    cases s with
    | waiting t =>
      exact ⟨[], .absent, .removed (h.marked id (hletters ▸ List.mem_cons_self)),
        ⟨hrest.trans hs.letters, hwaiting, (congrArg (·.get? id) hrunning).trans hs.running, hs.due,
          hs.active, trivial⟩, (List.append_nil _).symm⟩
    | _ =>
      exact Stands.lands (hs.congr hrest (hwaiting.trans hs.waiting.symm)
        (congrArg (·.get? id) hrunning) rfl rfl (.inl rfl)) rfl
  · rw [if_neg hid] at hwaiting
    exact Stands.lands
      (hs.congr hrest hwaiting (congrArg (·.get? id) hrunning) rfl rfl (.inl rfl)) rfl

/-- What a report leaves in the queue: nothing of a timer that was cancelled, and any other waits
again. -/
theorem receive_finished {ls : List (TimerLetter τ)} {i : Nat}
    (hletters : r.service.letters = .finished t.id :: ls) (hworks : r.service.stopped = false)
    (hrun : r.service.queue.running.get? t.id = some t) (hinterval : t.interval = some i) :
    r.after .receive = { r with service :=
      { r.service with
        letters := ls
        queue :=
          if t.id ∈ r.service.cancelled then
            { r.service.queue with running := r.service.queue.running.erase t.id }
          else
            { r.service.queue with running := r.service.queue.running.erase t.id }.insert
              { t with nextRun := t.policy.nextRun t.nextRun i r.service.now } } } := by
  simp only [after, TimerService.receive, hletters, hworks, Bool.false_eq_true, if_false,
    TimerService.read, hrun, TimerService.reschedule_eq _ hinterval]

theorem lands_finished {ls : List (TimerLetter τ)} {id' : Nat} (h : r.Kept) (hs : r.Stands id s)
    (hletters : r.service.letters = .finished id' :: ls) (hworks : r.service.stopped = false) :
    r.Lands id s .receive (r.after .receive) := by
  obtain ⟨s', hs'⟩ := h.stands id'
  obtain ⟨t, rfl, hnone⟩ := hs'.reported hletters
  obtain ⟨rfl, hperiodic⟩ := hs'.fits
  obtain ⟨i, hinterval⟩ := Option.isSome_iff_exists.mp hperiodic
  rw [receive_finished hletters hworks hs'.running hinterval]
  have herase := Table.get?_erase r.service.queue.running t.id id
  by_cases hid : id = t.id
  · subst hid
    obtain ⟨u, rfl, -⟩ := hs.reported hletters
    obtain rfl : u = t := Option.some.inj (hs.running.symm.trans hs'.running)
    rw [if_pos rfl] at herase
    by_cases hc : u.id ∈ r.service.cancelled
    · simp only [if_pos hc]
      exact ⟨[], .absent, .forgotten hc,
        ⟨hnone, hs.waiting, herase, hs.due, hs.active, trivial⟩, (List.append_nil _).symm⟩
    · simp only [if_neg hc]
      refine ⟨[], _, .renewed hworks hc hinterval, ⟨hnone, ?_, herase, hs.due, hs.active, rfl⟩,
        (List.append_nil _).symm⟩
      exact (Table.get?_insert ..).trans (if_pos rfl)
  · rw [if_neg hid] at herase
    have hrest := filter_tail id hletters (by simpa using Ne.symm hid)
    by_cases hc : t.id ∈ r.service.cancelled
    · simp only [if_pos hc]
      exact Stands.lands (hs.congr hrest rfl herase rfl rfl (.inl rfl)) rfl
    · simp only [if_neg hc]
      have hwaiting : ({ r.service.queue with
            running := r.service.queue.running.erase t.id }.insert
              { t with nextRun := t.policy.nextRun t.nextRun i r.service.now }).waiting.get? id =
          r.service.queue.waiting.get? id := (Table.get?_insert ..).trans (if_neg hid)
      exact Stands.lands (hs.congr hrest hwaiting herase rfl rfl (.inl rfl)) rfl

theorem lands_receive (h : r.Kept) (hs : r.Stands id s) :
    r.Lands id s .receive (r.after .receive) := by
  cases hstopped : r.service.stopped with
  | true => exact lands_receive_stopped hs hstopped
  | false =>
    cases hletters : r.service.letters with
    | nil =>
      have hsame : r.after .receive = r := by simp only [after, TimerService.receive, hletters]
      rw [hsame]
      exact hs.lands rfl
    | cons l ls =>
      cases l with
      | insert t => exact lands_insert hs hletters hstopped
      | cancel id' => exact lands_cancelled h hs hletters hstopped
      | finished id' => exact lands_finished h hs hletters hstopped
      | shutdown =>
        have hreceive : r.after .receive = { r with service :=
            { r.service with letters := ls, stopped := true } } := by
          simp only [after, TimerService.receive, hletters, hstopped, Bool.false_eq_true, if_false,
            TimerService.read]
        rw [hreceive]
        exact Stands.lands (hs.congr (filter_tail id hletters rfl) rfl rfl rfl rfl (.inr rfl)) rfl

/-! ## Sweeps -/

/-- A sweep detaches what is due, and hands over what has not been cancelled. -/
theorem after_sweep (hworks : r.service.stopped = false) :
    r.after .sweep = { r with service :=
      { r.service with
        queue :=
          { (r.service.queue.takeDue r.service.now).2 with
            running :=
              ((r.service.firing (r.service.queue.takeDue r.service.now).1).filter
                (·.isPeriodic)).foldl (fun w t => w.insert t.id t) r.service.queue.running }
        due := r.service.due ++ r.service.firing (r.service.queue.takeDue r.service.now).1 } } := by
  simp only [after, TimerService.sweep, hworks, Bool.false_eq_true, if_false,
    TimerService.foldl_fire_eq]
  rfl

/-- Of the firings that are handed over, those of one timer. -/
theorem filter_firing (id : Nat) (h : r.Kept) :
    (r.service.firing (r.service.queue.takeDue r.service.now).1).filter (·.id = id) =
      if id ∈ r.service.cancelled then []
      else ((r.service.queue.waiting.get? id).filter (·.nextRun ≤ r.service.now)).toList := by
  have hfilter := h.queue.filter_takeDue r.service.now id
  rw [TimerService.firing, List.filter_filter, ← hfilter]
  by_cases hc : id ∈ r.service.cancelled
  · rw [if_pos hc]
    refine List.filter_eq_nil_iff.mpr fun t _ => ?_
    have hmark := TimerService.isCancelled_iff.mpr hc
    by_cases hid : t.id = id
    · simp [hid, hmark]
    · simp [hid]
  · rw [if_neg hc]
    refine List.filter_congr fun t _ => ?_
    have hmark := mt TimerService.isCancelled_iff.mp hc
    by_cases hid : t.id = id
    · simp [hid, hmark]
    · simp [hid]

theorem lands_sweep (h : r.Kept) (hs : r.Stands id s) : r.Lands id s .sweep (r.after .sweep) := by
  cases hstopped : r.service.stopped with
  | true =>
    have hsame : r.after .sweep = r := by
      simp only [after, TimerService.sweep, hstopped, if_true]
    rw [hsame]
    exact hs.lands rfl
  | false =>
    rw [after_sweep hstopped]
    have hfiring := filter_firing id h
    have hwaiting := h.queue.takeDue_waiting r.service.now id
    have hrunning := TimerService.get?_foldl_insert id
      ((r.service.firing (r.service.queue.takeDue r.service.now).1).filter (·.isPeriodic))
      r.service.queue.running
    rw [List.filter_comm, hfiring] at hrunning
    have hdue : (r.service.due ++
        r.service.firing (r.service.queue.takeDue r.service.now).1).filter (·.id = id) = _ :=
      List.filter_append ..
    rw [hfiring, hs.due] at hdue
    rw [hs.waiting] at hwaiting hrunning hdue
    by_cases hleaves : ∃ t, s = .waiting t ∧ t.nextRun ≤ r.service.now
    · obtain ⟨t, rfl, hle⟩ := hleaves
      have hlate : ¬ r.service.now < t.nextRun := Nat.not_lt.mpr hle
      by_cases hc : id ∈ r.service.cancelled
      · refine ⟨[], .absent, .dropped hc, ⟨hs.letters, ?_, ?_, ?_, hs.active, trivial⟩,
          (List.append_nil _).symm⟩
        · simpa [Stage.inWaiting, Option.filter_some, hlate] using hwaiting
        · simpa [hc, hs.running, Stage.inRunning] using hrunning
        · simpa [hc, Stage.inDue] using hdue
      · refine ⟨[], .due t, .detached hstopped hc hle,
          ⟨hs.letters, ?_, ?_, ?_, hs.active, hs.fits⟩, (List.append_nil _).symm⟩
        · simpa [Stage.inWaiting, Option.filter_some, hlate] using hwaiting
        · cases hp : t.isPeriodic with
          | true =>
            simpa [hc, Stage.inWaiting, Option.filter_some, hle, hp, Stage.inRunning] using hrunning
          | false =>
            simpa [hc, Stage.inWaiting, Option.filter_some, hle, hp, Stage.inRunning, hs.running]
              using hrunning
        · simpa [hc, Stage.inWaiting, Option.filter_some, hle, Stage.inDue] using hdue
    · have hnone : s.inWaiting.filter (·.nextRun ≤ r.service.now) = none := by
        cases s with
        | waiting t =>
          have hle : ¬ t.nextRun ≤ r.service.now := fun hle => hleaves ⟨t, rfl, hle⟩
          simp [Stage.inWaiting, Option.filter_some, hle]
        | _ => rfl
      have hall : s.inWaiting.filter (r.service.now < ·.nextRun) = s.inWaiting := by
        cases s with
        | waiting t =>
          have hlt : r.service.now < t.nextRun := Nat.not_le.mp fun hle => hleaves ⟨t, rfl, hle⟩
          simp [Stage.inWaiting, Option.filter_some, hlt]
        | _ => rfl
      rw [hnone] at hrunning hdue
      refine Stands.lands (hs.congr rfl ?_ ?_ ?_ rfl (.inl rfl)) rfl
      · exact (hwaiting.trans hall).trans hs.waiting.symm
      · simpa using hrunning
      · simpa [hs.due] using hdue

/-! ## Firings -/

/-- A firing that ends is reported if it is to be. -/
theorem filter_finish (id : Nat) (service : TimerService τ) (t : Timer τ) :
    (service.finish t).letters.filter (·.about id) =
      service.letters.filter (·.about id) ++
        if t.id = id ∧ t.isPeriodic = true then [.finished t.id] else [] := by
  unfold TimerService.finish
  by_cases hp : t.interval.isSome = true
  · rw [if_pos hp, TimerService.send, List.filter_append]
    by_cases hid : t.id = id
    · simp [Timer.isPeriodic, hp, hid]
    · simp [hid]
  · simp [Timer.isPeriodic, hp]

theorem finish_eq (service : TimerService τ) (t : Timer τ) :
    service.finish t = { service with letters := (service.finish t).letters } := by
  unfold TimerService.finish
  split <;> rfl

/-- A task that has been taken up runs, or its firing has ended at once. -/
theorem takeUp_eq (r : TimerRun τ) (t : Timer τ) :
    r.takeUp t =
      if t.id ∈ r.service.cancelled then
        { r with service := (r.service.start t).2.finish t }
      else
        { service := (r.service.start t).2
          active := r.active ++ [t]
          notes := r.notes ++ [.began t r.service.now] } := by
  by_cases hc : t.id ∈ r.service.cancelled
  · simp only [takeUp, TimerService.start, TimerService.isCancelled_iff.mpr hc, Bool.not_true,
      Bool.false_eq_true, if_false, hc, if_true]
  · have hmark : r.service.isCancelled t.id = false := by
      simpa using mt TimerService.isCancelled_iff.mp hc
    simp only [takeUp, TimerService.start, hmark, Bool.not_false, if_true, hc, if_false]

/-- A worker that takes up a firing changes nothing but the marks. -/
theorem start_eq (service : TimerService τ) (t : Timer τ) :
    (service.start t).2 = { service with cancelled := (service.start t).2.cancelled } := by
  unfold TimerService.start TimerService.mark
  dsimp only
  split
  · rfl
  · split <;> rfl

theorem Stands.fired {n : Nat} (hs : r.Stands id s) (hn : r.service.due[n]? = some t)
    (hid : t.id = id) : s = .due t ∧ (r.service.due.eraseIdx n).filter (·.id = id) = [] := by
  have hdue := hs.due
  have hmem : t ∈ r.service.due.filter (·.id = id) :=
    List.mem_filter.mpr ⟨List.mem_of_getElem? hn, by simpa using hid⟩
  cases s with
  | due u =>
    obtain ⟨rfl, hnil⟩ := filter_eraseIdx_of_pos hn (by simpa using hid) hdue
    exact ⟨rfl, hnil⟩
  | _ =>
    rw [hdue] at hmem
    cases hmem

theorem Stands.working {n : Nat} (hs : r.Stands id s) (hn : r.active[n]? = some t)
    (hid : t.id = id) : s = .active t ∧ (r.active.eraseIdx n).filter (·.id = id) = [] := by
  have hactive := hs.active
  have hmem : t ∈ r.active.filter (·.id = id) :=
    List.mem_filter.mpr ⟨List.mem_of_getElem? hn, by simpa using hid⟩
  cases s with
  | active u =>
    obtain ⟨rfl, hnil⟩ := filter_eraseIdx_of_pos hn (by simpa using hid) hactive
    exact ⟨rfl, hnil⟩
  | _ =>
    rw [hactive] at hmem
    cases hmem

/-- A firing that is over is where its end leads. -/
theorem Stands.over {service : TimerService τ} {notes : List (TimerNote τ)}
    {active : List (Timer τ)}
    (hletters : service.letters.filter (·.about id) = [])
    (hwaiting : service.queue.waiting.get? id = none)
    (hrunning : service.queue.running.get? id = if t.isPeriodic then some t else none)
    (hdue : service.due.filter (·.id = id) = []) (hactive : active.filter (·.id = id) = [])
    (hid : t.id = id) : Stands ⟨service.finish t, active, notes⟩ id (.ending t) := by
  have hfinish := filter_finish id service t
  rw [hletters, List.nil_append] at hfinish
  rw [finish_eq] at hfinish ⊢
  cases hp : t.isPeriodic with
  | true =>
    have hend : Stage.ending t = .reported t := if_pos hp
    rw [hp, if_pos rfl] at hrunning
    rw [if_pos ⟨hid, hp⟩] at hfinish
    rw [hend]
    exact ⟨hfinish, hwaiting, hrunning, hdue, hactive, hid, hp⟩
  | false =>
    have hend : Stage.ending t = .absent := if_neg (by simp [hp])
    rw [hp, if_neg Bool.false_ne_true] at hrunning
    rw [if_neg (by simp [hp])] at hfinish
    rw [hend]
    exact ⟨hfinish, hwaiting, hrunning, hdue, hactive, trivial⟩

theorem lands_start (hs : r.Stands id s) (n : Nat) :
    r.Lands id s (.start n) (r.after (.start n)) := by
  cases hn : r.service.due[n]? with
  | none =>
    have hsame : r.after (.start n) = r := by simp only [after, hn]
    rw [hsame]
    exact hs.lands rfl
  | some t =>
    simp only [after, hn, takeUp_eq]
    by_cases hid : t.id = id
    · obtain ⟨rfl, hdue⟩ := hs.fired hn hid
      by_cases hc : t.id ∈ r.service.cancelled
      · rw [if_pos hc, start_eq]
        refine ⟨[], .ending t, .passedOver hn (hid ▸ hc), ?_, (List.append_nil _).symm⟩
        exact .over hs.letters hs.waiting hs.running hdue hs.active hid
      · rw [if_neg hc, start_eq]
        refine ⟨_, .active t, .begun hn (hid ▸ hc),
          ⟨hs.letters, hs.waiting, hs.running, hdue, ?_, hs.fits⟩, ?_⟩
        · rw [List.filter_append, hs.active, List.filter_cons_of_pos (by simpa using hid)]
          rfl
        · rw [story_snoc]
          exact congrArg _ (if_pos (by simpa [TimerNote.about] using hid))
    · have hdue : (r.service.due.eraseIdx n).filter (·.id = id) = _ :=
        filter_eraseIdx_of_neg hn (by simpa using hid)
      by_cases hc : t.id ∈ r.service.cancelled
      · rw [if_pos hc, start_eq, finish_eq]
        refine Stands.lands (hs.congr ?_ rfl rfl hdue rfl (.inl rfl)) rfl
        exact (filter_finish _ _ t).trans (by rw [if_neg fun h => hid h.1, List.append_nil])
      · rw [if_neg hc, start_eq]
        refine Stands.lands (hs.congr rfl rfl rfl hdue ?_ (.inl rfl)) ?_
        · rw [List.filter_append, List.filter_cons_of_neg (by simpa using hid)]
          exact List.append_nil _
        · rw [story_snoc, if_neg (by simpa [TimerNote.about] using hid)]
          exact List.append_nil _

theorem lands_finish (hs : r.Stands id s) (n : Nat) (e : TaskEnd) :
    r.Lands id s (.finish n e) (r.after (.finish n e)) := by
  cases hn : r.active[n]? with
  | none =>
    have hsame : r.after (.finish n e) = r := by simp only [after, hn]
    rw [hsame]
    exact hs.lands rfl
  | some t =>
    simp only [after, hn]
    have hstory := story_snoc id r (r.service.finish t) (r.active.eraseIdx n)
      (.ended t r.service.now e)
    by_cases hid : t.id = id
    · obtain ⟨rfl, hactive⟩ := hs.working hn hid
      rw [if_pos (by simpa [TimerNote.about] using hid)] at hstory
      exact ⟨_, .ending t, .ended hn,
        .over hs.letters hs.waiting hs.running hs.due hactive hid, hstory⟩
    · have hactive : (r.active.eraseIdx n).filter (·.id = id) = _ :=
        filter_eraseIdx_of_neg hn (by simpa using hid)
      rw [if_neg (by simpa [TimerNote.about] using hid), List.append_nil] at hstory
      rw [finish_eq] at hstory ⊢
      refine Stands.lands (hs.congr ?_ rfl rfl rfl hactive (.inl rfl)) hstory
      exact (filter_finish _ _ t).trans (by rw [if_neg fun h => hid h.1, List.append_nil])

/-! ## Any move -/

/-- Each move does with each timer one of the things that it can do. -/
theorem Kept.lands (h : r.Kept) (hs : r.Stands id s) (m : TimerMove τ) :
    r.Lands id s m (r.after m) := by
  cases m with
  | add task delay interval policy => exact lands_add h hs task delay interval policy
  | cancel id' => exact lands_cancel hs id'
  | receive => exact lands_receive h hs
  | sweep => exact lands_sweep h hs
  | start n => exact lands_start hs n
  | finish n e => exact lands_finish hs n e
  | shutdown => exact Stands.lands (hs.congr (filter_send rfl _) rfl rfl rfl rfl (.inl rfl)) rfl
  | advance ms => exact Stands.lands (hs.congr rfl rfl rfl rfl rfl (.inl rfl)) rfl

end TimerRun
end PeerLink
