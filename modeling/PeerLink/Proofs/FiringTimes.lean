import PeerLink.Proofs.TimerKept

/-! # When periodic timers fire

* `Schedule`: the ticks of a periodic timer, and how many there have been at a time.
* `TimerRun.OnTime`: what the firings of a timer so far have to do with its ticks, stage by stage.
* `TimerRun.Rests`: there is nothing left to do at the time, and no firing of the timer in progress.
* `TimerRun.fires_on_schedule`: so it is in every run. At rest a timer that makes up for missed runs
  has fired once for each tick, and one that leaves them out at most as often.
-/

namespace PeerLink
set_option autoImplicit false

variable {τ : Type}

/-! ## Schedules -/

/-- When a periodic timer is to fire, and what it does about runs that it missed. -/
structure Schedule where
  first : Nat
  interval : Nat
  policy : FiringPolicy

namespace Schedule

variable (c : Schedule)

def tick (k : Nat) : Nat := c.first + k * c.interval

/-- How many ticks there have been at a time. -/
def ticks (time : Nat) : Nat :=
  if c.first ≤ time then (time - c.first) / c.interval + 1 else 0

variable {c}

theorem tick_succ (k : Nat) : c.tick (k + 1) = c.tick k + c.interval := by
  unfold tick
  rw [Nat.succ_mul, Nat.add_assoc]

theorem lt_ticks_iff (hpos : 0 < c.interval) {k time : Nat} :
    k < c.ticks time ↔ c.tick k ≤ time := by
  unfold ticks tick
  split
  · rw [Nat.lt_succ_iff, Nat.le_div_iff_mul_le hpos]
    omega
  · omega

/-! ## Firings so far -/

/-- No firing began before its tick, and all that has been told is past. -/
structure Told (c : Schedule) (now : Nat) (begins ends : List Nat) : Prop where
  tick : ∀ k time, begins[k]? = some time → c.tick k ≤ time
  begun : ∀ time ∈ begins, time ≤ now
  ended : ∀ time ∈ ends, time ≤ now
  apart : c.policy = .skip → begins.Pairwise (· < ·)

/-- A timer whose next run is to come. If the service is `prompt`, this is no more than an interval
after the last firing ended. -/
structure Awaits (c : Schedule) (prompt : Prop) (t : Timer τ) (begins ends : List Nat) : Prop where
  interval : t.interval = some c.interval
  policy : t.policy = c.policy
  ended : ends.length = begins.length
  tick : c.tick begins.length ≤ t.nextRun
  exact : c.policy = .catchUp → t.nextRun = c.tick begins.length
  later : c.policy = .skip → ∀ time ∈ begins ++ ends, time < t.nextRun
  near : prompt → ∀ time, ends.getLast? = some time → t.nextRun ≤ time + c.interval

/-- A timer whose last firing was for the run that it names. -/
structure Fires (c : Schedule) (t : Timer τ) (now : Nat) (begins : List Nat) : Prop where
  interval : t.interval = some c.interval
  policy : t.policy = c.policy
  past : t.nextRun ≤ now
  tick : ∃ k, begins.length = k + 1 ∧ c.tick k ≤ t.nextRun ∧
    (c.policy = .catchUp → t.nextRun = c.tick k)

variable {prompt : Prop} {t : Timer τ} {now now' : Nat} {begins ends : List Nat}

theorem Told.mono (h : c.Told now begins ends) (hnow : now ≤ now') : c.Told now' begins ends :=
  { h with
    begun := fun time htime => Nat.le_trans (h.begun time htime) hnow
    ended := fun time htime => Nat.le_trans (h.ended time htime) hnow }

theorem Fires.mono (h : c.Fires t now begins) (hnow : now ≤ now') : c.Fires t now' begins :=
  { h with past := Nat.le_trans h.past hnow }

theorem Told.begin (h : c.Told now begins ends) (ht : c.Awaits prompt t begins ends)
    (hdue : t.nextRun ≤ now) : c.Told now (begins ++ [now]) ends where
  tick k time htime := by
    rw [List.getElem?_append, List.getElem?_singleton] at htime
    split at htime
    · exact h.tick k time htime
    · split at htime
      · obtain rfl : k = begins.length := by omega
        obtain rfl := Option.some.inj htime
        exact Nat.le_trans ht.tick hdue
      · cases htime
  begun time htime := by
    obtain htime | htime := List.mem_append.mp htime
    · exact h.begun time htime
    · exact Nat.le_of_eq (List.mem_singleton.mp htime)
  ended := h.ended
  apart hskip := by
    refine List.pairwise_append.mpr ⟨h.apart hskip, List.pairwise_singleton _ _, ?_⟩
    intro time htime time' htime'
    obtain rfl := List.mem_singleton.mp htime'
    exact Nat.lt_of_lt_of_le (ht.later hskip time (List.mem_append_left _ htime)) hdue

theorem Told.end (h : c.Told now begins ends) : c.Told now begins (ends ++ [now]) :=
  { h with
    ended := fun time htime => (List.mem_append.mp htime).elim (h.ended time)
      fun htime => Nat.le_of_eq (List.mem_singleton.mp htime) }

theorem Awaits.begin (h : c.Awaits prompt t begins ends) (hdue : t.nextRun ≤ now) :
    c.Fires t now (begins ++ [now]) :=
  ⟨h.interval, h.policy, hdue, begins.length, List.length_append, h.tick, h.exact⟩

/-- The timer is put back for its next run. -/
theorem Fires.renew (h : c.Fires t now begins) (hpos : 0 < c.interval)
    (htold : c.Told now begins ends) (hended : ends.length = begins.length)
    (hprompt : prompt → ends.getLast? = some now) :
    c.Awaits prompt { t with nextRun := t.policy.nextRun t.nextRun c.interval now } begins
      ends := by
  obtain ⟨k, hk, htick, hexact⟩ := h.tick
  refine ⟨h.interval, h.policy, hended, ?_, fun hcatch => ?_, fun hskip time htime => ?_,
    fun hp time htime => ?_⟩
  · rw [hk, tick_succ]
    exact Nat.le_trans (Nat.add_le_add_right htick _) (FiringPolicy.le_nextRun _)
  · dsimp only
    rw [h.policy, hcatch, FiringPolicy.nextRun_catchUp, hexact hcatch, hk, tick_succ]
  · have hpast : time ≤ now :=
      (List.mem_append.mp htime).elim (htold.begun time) (htold.ended time)
    dsimp only
    rw [h.policy, hskip]
    exact Nat.lt_of_le_of_lt hpast (FiringPolicy.lt_nextRun_skip hpos)
  · obtain rfl : now = time := Option.some.inj ((hprompt hp).symm.trans htime)
    exact FiringPolicy.nextRun_le _ h.past

/-! ## Stages -/

/-- What holds of a timer at its stage, as long as it is not `gone`. -/
def Suits (c : Schedule) (prompt gone : Prop) (now : Nat) (begins ends : List Nat) :
    Stage τ → Prop
  | .posted t | .waiting t => c.Awaits prompt t begins ends
  | .due t => c.Awaits prompt t begins ends ∧ t.nextRun ≤ now
  | .active t => c.Fires t now begins ∧ ends.length + 1 = begins.length
  | .reported t => ¬ gone →
    c.Fires t now begins ∧ ends.length = begins.length ∧ (prompt → ends.getLast? = some now)
  | .absent | .stranded _ => gone

end Schedule

theorem Stage.ending_of_interval {t : Timer τ} {i : Nat} (h : t.interval = some i) :
    Stage.ending t = .reported t := by
  unfold Stage.ending Timer.isPeriodic
  rw [h]
  rfl

namespace TimerRun

/-- There is no letter to read and no firing to begin, and no timer is due. -/
structure AtRest (r : TimerRun τ) : Prop where
  letters : r.service.letters = []
  begun : r.service.due = []
  swept : r.service.stopped = false → (r.service.queue.takeDue r.service.now).1 = []

/-- The clock moves only when all is at rest, as in any session of workers without limit. -/
def Prompt : List (TimerMove τ) → Prop := Along fun r m => ∀ ms, m = .advance ms → r.AtRest

theorem Prompt.nil : Prompt ([] : List (TimerMove τ)) := fun earlier m later h => by
  cases earlier <;> cases h

theorem Prompt.append {ms ms' : List (TimerMove τ)} (h : Prompt ms)
    (hms' : ∀ n, .advance n ∉ ms') : Prompt (ms ++ ms') :=
  Along.append h fun earlier m later hm n hn =>
    absurd (by rw [hm, hn]; exact List.mem_append_right _ List.mem_cons_self) (hms' n)

/-- The timer has been cancelled, or the service has stopped. -/
def Over (r : TimerRun τ) (id : Nat) : Prop :=
  id ∈ r.service.cancelled ∨ r.service.stopped = true

structure OnTime (r : TimerRun τ) (id : Nat) (c : Schedule) (prompt : Prop) (s : Stage τ) :
    Prop where
  told : c.Told r.service.now (r.begins id) (r.ends id)
  suits : c.Suits prompt (r.Over id) r.service.now (r.begins id) (r.ends id) s

variable {r : TimerRun τ} {id : Nat} {c : Schedule} {prompt : Prop} {s s' : Stage τ}
  {m : TimerMove τ} {ns : List (TimerNote τ)}

theorem Over.after (h : r.Over id) (m : TimerMove τ) : (r.after m).Over id :=
  h.imp (fun hc => cancelled_after r m hc) fun hstopped => (stopped_after hstopped m).1

theorem begins_after (h : (r.after m).story id = r.story id ++ ns) :
    (r.after m).begins id = r.begins id ++ ns.filterMap (·.beginning?) := by
  rw [begins, h, List.filterMap_append]
  rfl

theorem ends_after (h : (r.after m).story id = r.story id ++ ns) :
    (r.after m).ends id = r.ends id ++ ns.filterMap (·.ending?) := by
  rw [ends, h, List.filterMap_append]
  rfl

/-- Time passes for a timer, and it stays where it is. -/
theorem OnTime.stays (h : r.OnTime id c prompt s) (hs : r.Stands id s)
    (hprompt : prompt → ∀ ms, m = .advance ms → r.AtRest)
    (hstory : (r.after m).story id = r.story id ++ []) :
    (r.after m).OnTime id c prompt s := by
  have hnow : r.service.now ≤ (r.after m).service.now := by
    rw [now_after]
    exact Nat.le_add_right _ _
  obtain ⟨htold, hsuits⟩ := h
  constructor <;> rw [begins_after hstory, ends_after hstory, List.filterMap_nil,
    List.filterMap_nil, List.append_nil, List.append_nil]
  · exact htold.mono hnow
  cases s with
  | posted t | waiting t => exact hsuits
  | due t => exact ⟨hsuits.1, Nat.le_trans hsuits.2 hnow⟩
  | active t => exact ⟨hsuits.1.mono hnow, hsuits.2⟩
  | absent | stranded t => exact hsuits.after m
  | reported t =>
    intro hkept
    obtain ⟨hfires, hended, hlast⟩ := hsuits fun hover => hkept (hover.after m)
    refine ⟨hfires.mono hnow, hended, fun hp => ?_⟩
    rw [hlast hp, now_after]
    cases m with
    | advance ms =>
      -- A report that waits keeps the clock from moving.
      have hletters := hs.letters
      rw [(hprompt hp ms rfl).letters] at hletters
      cases hletters
    | _ => rfl

/-- Of a move that takes no time. -/
theorem OnTime.of_story {begins ends : List Nat}
    (hstory : (r.after m).story id = r.story id ++ ns) (hm : ∀ ms, m ≠ .advance ms)
    (hbegins : r.begins id ++ ns.filterMap (·.beginning?) = begins)
    (hends : r.ends id ++ ns.filterMap (·.ending?) = ends)
    (htold : c.Told r.service.now begins ends)
    (hsuits : c.Suits prompt ((r.after m).Over id) r.service.now begins ends s') :
    (r.after m).OnTime id c prompt s' := by
  have hnow : (r.after m).service.now = r.service.now := by
    rw [now_after]
    cases m with
    | advance ms => exact absurd rfl (hm ms)
    | _ => rfl
  constructor <;> rw [begins_after hstory, ends_after hstory, hbegins, hends, hnow]
  · exact htold
  · exact hsuits

/-- Whatever happens to a timer, it keeps to its schedule. -/
theorem OnTime.passes (h : r.OnTime id c prompt s) (hpos : 0 < c.interval)
    (hid : id < r.service.nextId) (hs : r.Stands id s)
    (hprompt : prompt → ∀ ms, m = .advance ms → r.AtRest) (hpasses : r.Passes id m s ns s')
    (hstory : (r.after m).story id = r.story id ++ ns) :
    (r.after m).OnTime id c prompt s' := by
  obtain ⟨htold, hsuits⟩ := h
  have hquiet : r.begins id ++ [] = r.begins id ∧ r.ends id ++ [] = r.ends id :=
    ⟨List.append_nil _, List.append_nil _⟩
  cases hpasses with
  | stays => exact OnTime.stays ⟨htold, hsuits⟩ hs hprompt hstory
  | added fresh => exact absurd fresh (Nat.ne_of_lt hid)
  | begun =>
    refine .of_story hstory nofun rfl hquiet.2 (htold.begin hsuits.1 hsuits.2)
      ⟨hsuits.1.begin hsuits.2, ?_⟩
    rw [List.length_append, hsuits.1.ended]
    rfl
  | ended =>
    rw [Stage.ending_of_interval hsuits.1.interval]
    refine .of_story hstory nofun hquiet.1 rfl htold.end fun _ =>
      ⟨hsuits.1, ?_, fun _ => List.getLast?_concat⟩
    rw [List.length_append]
    exact hsuits.2
  | queued => exact .of_story hstory nofun hquiet.1 hquiet.2 htold hsuits
  | detached _ _ hdue => exact .of_story hstory nofun hquiet.1 hquiet.2 htold ⟨hsuits, hdue⟩
  | passedOver _ hc =>
    rw [Stage.ending_of_interval hsuits.1.interval]
    exact .of_story hstory nofun hquiet.1 hquiet.2 htold
      fun hkept => absurd (Over.after (.inl hc) _) hkept
  | renewed hworks hkept hinterval =>
    obtain ⟨hfires, hended, hlast⟩ := hsuits fun hover =>
      hover.elim hkept fun hstopped => Bool.false_ne_true (hworks.symm.trans hstopped)
    obtain rfl := Option.some.inj (hinterval.symm.trans hfires.interval)
    exact .of_story hstory nofun hquiet.1 hquiet.2 htold (hfires.renew hpos htold hended hlast)
  | lost hstopped | stranded hstopped =>
    exact .of_story hstory nofun hquiet.1 hquiet.2 htold (Over.after (.inr hstopped) _)
  | removed hc | dropped hc | forgotten hc =>
    exact .of_story hstory nofun hquiet.1 hquiet.2 htold (Over.after (.inl hc) _)

/-! ## At rest -/

/-- All is at rest, the timer is still wanted, and none of its firings is in progress. -/
structure Rests (r : TimerRun τ) (id : Nat) : Prop extends r.AtRest where
  works : r.service.stopped = false
  kept : id ∉ r.service.cancelled
  idle : ∀ t ∈ r.active, t.id ≠ id

/-- At rest a timer waits for a time to come. -/
theorem OnTime.rests (h : r.OnTime id c prompt s) (hkept : r.Kept) (hs : r.Stands id s)
    (hrests : r.Rests id) : ∃ t, r.service.queue.waiting.get? id = some t ∧
      c.Awaits prompt t (r.begins id) (r.ends id) ∧ r.service.now < t.nextRun := by
  have hletters := hs.letters
  have hbegun := hs.due
  have hactive := hs.active
  rw [hrests.letters] at hletters
  rw [hrests.begun] at hbegun
  rw [List.filter_eq_nil_iff.mpr fun t ht => by simpa using hrests.idle t ht] at hactive
  obtain ⟨-, hsuits⟩ := h
  cases s with
  | posted t | reported t => cases hletters
  | due t => cases hbegun
  | active t => cases hactive
  | absent | stranded t =>
    obtain hc | hstopped := hsuits
    · exact absurd hc hrests.kept
    · exact absurd (hrests.works.symm.trans hstopped) Bool.false_ne_true
  | waiting t =>
    refine ⟨t, hs.waiting, hsuits, Nat.not_le.mp fun hdue => ?_⟩
    have hmem : t ∈ (r.service.queue.takeDue r.service.now).1 := by
      refine ((hkept.queue.due_spec _).1 t).mpr ⟨?_, hdue⟩
      obtain rfl : t.id = id := hs.fits
      exact hs.waiting
    rw [hrests.swept hrests.works] at hmem
    cases hmem

end TimerRun

namespace Schedule

variable {c : Schedule} {prompt : Prop} {t : Timer τ} {now : Nat} {begins ends : List Nat}

theorem Told.length_le (h : c.Told now begins ends) (hpos : 0 < c.interval) :
    begins.length ≤ c.ticks now := by
  match hlength : begins.length with
  | 0 => exact Nat.zero_le _
  | k + 1 =>
    have hk : k < begins.length := by omega
    have hlast := List.getElem?_eq_getElem hk
    exact (lt_ticks_iff hpos).mpr
      (Nat.le_trans (h.tick k _ hlast) (h.begun _ (List.getElem_mem hk)))

/-- A timer that makes up for what it missed has fired for each tick, if its next is to come. -/
theorem Awaits.length_eq (h : c.Awaits prompt t begins ends) (htold : c.Told now begins ends)
    (hpos : 0 < c.interval) (hcatch : c.policy = .catchUp) (hnow : now < t.nextRun) :
    begins.length = c.ticks now := by
  refine Nat.le_antisymm (htold.length_le hpos) (Nat.not_lt.mp fun hlt => ?_)
  rw [lt_ticks_iff hpos, ← h.exact hcatch] at hlt
  exact Nat.not_le.mpr hnow hlt

/-- Once it has fired, the next run comes after the end of the last firing. -/
theorem Awaits.last_end (h : c.Awaits prompt t begins ends) (hskip : c.policy = .skip)
    (hbegun : begins ≠ []) : ∃ e, ends.getLast? = some e ∧ e < t.nextRun ∧
      (prompt → t.nextRun ≤ e + c.interval) := by
  have hended : ends ≠ [] := by
    rintro rfl
    exact hbegun (List.length_eq_zero_iff.mp h.ended.symm)
  have hlast := List.getLast?_eq_some_getLast hended
  have hlater := h.later hskip _ (List.mem_append_right _ (List.getLast_mem hended))
  exact ⟨_, hlast, hlater, fun hprompt => h.near hprompt _ hlast⟩

end Schedule

/-! ## How tasks end -/

/-- The move with a task that returns. -/
def TimerMove.plain : TimerMove τ → TimerMove τ
  | .finish n _ => .finish n .returned
  | m => m

def TimerNote.plain : TimerNote τ → TimerNote τ
  | .ended t time _ => .ended t time .returned
  | n => n

namespace TimerRun

def plain (r : TimerRun τ) : TimerRun τ := { r with notes := r.notes.map (·.plain) }

theorem plain_after (r : TimerRun τ) (m : TimerMove τ) :
    (r.after m).plain = r.plain.after m.plain := by
  cases m with
  | add | cancel => simp [after, plain, TimerMove.plain, TimerNote.plain, newTimer]
  | shutdown | advance | receive | sweep => rfl
  | start n =>
    simp only [after, plain, TimerMove.plain]
    split
    · rfl
    · rw [takeUp_eq, takeUp_eq]
      split
      · rfl
      · simp [TimerNote.plain]
  | finish n e =>
    simp only [after, plain, TimerMove.plain]
    split
    · rfl
    · simp [TimerNote.plain]

theorem plain_run (ms : List (TimerMove τ)) : (run ms).plain = run (ms.map (·.plain)) := by
  induction ms using List.reverseRecOn with
  | nil => rfl
  | append_singleton ms m ih =>
    rw [List.map_append, List.map_singleton, run_snoc, run_snoc, plain_after, ih]

theorem story_plain (r : TimerRun τ) (id : Nat) :
    r.plain.story id = (r.story id).map (·.plain) := by
  unfold story plain
  rw [List.filter_map]
  congr 2
  funext n
  cases n <;> rfl

/-- What does not tell how tasks end is told all the same. -/
theorem filterMap_story_plain {α : Type} (r : TimerRun τ) (id : Nat) {f : TimerNote τ → Option α}
    (hf : ∀ n, f n.plain = f n) : (r.plain.story id).filterMap f = (r.story id).filterMap f := by
  rw [story_plain, List.filterMap_map]
  exact congrArg (fun g => (r.story id).filterMap g) (funext hf)

theorem begins_plain (r : TimerRun τ) (id : Nat) : r.plain.begins id = r.begins id :=
  filterMap_story_plain r id fun n => by cases n <;> rfl

theorem ends_plain (r : TimerRun τ) (id : Nat) : r.plain.ends id = r.ends id :=
  filterMap_story_plain r id fun n => by cases n <;> rfl

/-- No timer takes notice of how tasks end. -/
theorem run_plain {ms ms' : List (TimerMove τ)} (h : ms'.map (·.plain) = ms.map (·.plain)) :
    (run ms').service = (run ms).service ∧ ∀ id, (run ms').begins id = (run ms).begins id ∧
      (run ms').ends id = (run ms).ends id := by
  have hplain : (run ms').plain = (run ms).plain := by
    rw [plain_run, plain_run, h]
  have hservice : (run ms').plain.service = (run ms).plain.service := by rw [hplain]
  refine ⟨hservice, fun id => ⟨?_, ?_⟩⟩
  · rw [← begins_plain, hplain, begins_plain]
  · rw [← ends_plain, hplain, ends_plain]

/-! ## Every run -/

section

variable (before : List (TimerMove τ)) (task : τ) (first interval : Nat) (policy : FiringPolicy)
  (later : List (TimerMove τ))

/-- The ticks of a timer that is added now. -/
def schedule (r : TimerRun τ) (first interval : Nat) (policy : FiringPolicy) : Schedule :=
  ⟨r.service.now + first, interval, policy⟩

/-- A timer is on time from the call that adds it. -/
theorem on_time (hpos : 0 < interval) :
    ∃ s, (run (before ++ .add task first (some interval) policy :: later)).Stands
        (run before).service.nextId s ∧
      (run (before ++ .add task first (some interval) policy :: later)).OnTime
        (run before).service.nextId ((run before).schedule first interval policy)
        (Prompt (before ++ .add task first (some interval) policy :: later)) s := by
  refine follow (I := fun r s => r.OnTime _ _ (Prompt _) s)
    (P := fun r m => Prompt _ → ∀ ms, m = .advance ms → r.AtRest) ?_ ?_
    fun earlier m later' hms hprompt => hprompt earlier m later' hms
  · constructor <;> rw [begins, ends, story_added]
    · exact ⟨nofun, nofun, nofun, fun _ => .nil⟩
    · have htick : ((run before).schedule first interval policy).tick 0 =
          ((run before).newTimer task first (some interval) policy).nextRun := by
        rw [Schedule.tick, Nat.zero_mul]
        rfl
      exact ⟨rfl, rfl, rfl, Nat.le_of_eq htick, fun _ => htick.symm, nofun, nofun⟩
  · intro r m s ns s' hprompt hid hs hpasses hstory hontime
    exact hontime.passes hpos hid hs hprompt hpasses hstory

/-- A periodic timer keeps to its ticks. For its next run to be within an interval of the end of its
last firing, that end must be reported before time goes on. -/
theorem fires_on_schedule (hpos : 0 < interval) :
    let ms := before ++ .add task first (some interval) policy :: later
    let r := run ms
    let id := (run before).service.nextId
    let c := (run before).schedule first interval policy
    -- Its firings do not overlap, none begins before its tick, and tasks that panic change nothing.
    ((r.service.due ++ r.active).filter (·.id = id)).length ≤ 1 ∧
    (∀ k time, (r.begins id)[k]? = some time → c.tick k ≤ time) ∧
    (∀ ms', ms'.map (·.plain) = ms.map (·.plain) → (run ms').service = r.service ∧
      (run ms').begins id = r.begins id ∧ (run ms').ends id = r.ends id) ∧
    (policy = .skip → (r.begins id).Pairwise (· < ·)) ∧
    (r.Rests id →
      (policy = .catchUp → (r.begins id).length = c.ticks r.service.now) ∧
      (policy = .skip →
        (r.begins id ≠ [] → ∃ t e, r.service.queue.waiting.get? id = some t ∧
          (r.ends id).getLast? = some e ∧ e < t.nextRun ∧ (Prompt ms → t.nextRun ≤ e + interval)) ∧
        (r.begins id).length ≤ c.ticks r.service.now ∧
        -- It fires at most as often as one that makes up for what it missed.
        ∀ (before' : List (TimerMove τ)) (task' : τ) (later' : List (TimerMove τ)),
          let r' := run (before' ++ .add task' first (some interval) .catchUp :: later')
          let id' := (run before').service.nextId
          (run before').service.now = (run before).service.now → r'.Rests id' →
            r'.service.now = r.service.now → (r.begins id).length ≤ (r'.begins id').length)) := by
  intro ms r id c
  have hkept : r.Kept := kept_run ms
  obtain ⟨s, hs, hontime⟩ := on_time before task first interval policy later hpos
  have htold := hontime.told
  refine ⟨?_, htold.tick, fun ms' hms' => ?_, htold.apart, fun hrests => ?_⟩
  · rw [List.filter_append, hs.due, hs.active]
    cases s <;> simp [Stage.inDue, Stage.inActive]
  · exact ⟨(run_plain hms').1, (run_plain hms').2 id⟩
  obtain ⟨t, hwaits, hawaits, hnow⟩ := hontime.rests hkept hs hrests
  refine ⟨fun hcatch => hawaits.length_eq htold hpos hcatch hnow, fun hskip => ⟨fun hbegun => ?_,
    htold.length_le hpos, ?_⟩⟩
  · obtain ⟨e, hlast, hlater, hnear⟩ := hawaits.last_end hskip hbegun
    exact ⟨t, e, hwaits, hlast, hlater, hnear⟩
  · intro before' task' later' r' id' hfirst hrests' hnow'
    obtain ⟨s', hs', hontime'⟩ := on_time before' task' first interval .catchUp later' hpos
    obtain ⟨t', -, hawaits', hnext'⟩ := hontime'.rests (kept_run _) hs' hrests'
    have hticks : (r'.begins id').length = c.ticks r.service.now := by
      rw [hawaits'.length_eq hontime'.told hpos rfl hnext', ← hnow', schedule, hfirst]
      rfl
    rw [hticks]
    exact htold.length_le hpos

end

/-- A firing that is due at 20 begins at 45; the next is then at 65. -/
theorem skips_a_tick :
    let ms : List (TimerMove Unit) := [] ++ .add () 0 (some 20) .skip ::
      [.receive, .sweep, .start 0, .finish 0 .panicked, .receive, .advance 45, .sweep, .start 0,
        .finish 0 .returned, .receive]
    0 < 20 ∧ Prompt ms ∧ (run ms).Rests 1 ∧ (run ms).begins 1 = [0, 45] ∧
      ∃ t e, (run ms).service.queue.waiting.get? 1 = some t ∧ ((run ms).ends 1).getLast? = some e ∧
        e < t.nextRun ∧ t.nextRun ≤ e + 20 := by
  intro ms
  have hprompt : Prompt ms := by
    have hfirst : Prompt (ms.take 6) := Prompt.nil.append (by simp)
    have hjump : Prompt (ms.take 7) := Along.snoc hfirst fun _ _ => ⟨rfl, rfl, fun _ => rfl⟩
    have hlast : Prompt (ms.take 7 ++ ms.drop 7) := hjump.append (by simp [ms])
    exact hlast
  have hrests : (run ms).Rests 1 := ⟨⟨rfl, rfl, fun _ => rfl⟩, rfl, by decide, nofun⟩
  have hschedule := fires_on_schedule [] () 0 20 .skip (ms.drop 1) (by decide)
  obtain ⟨-, -, -, -, hrest⟩ := hschedule
  obtain ⟨t, e, hwaits, hlast, hlater, hnear⟩ := ((hrest hrests).2 rfl).1 (by decide)
  exact ⟨by decide, hprompt, hrests, rfl, t, e, hwaits, hlast, hlater, hnear hprompt⟩

end TimerRun
end PeerLink
