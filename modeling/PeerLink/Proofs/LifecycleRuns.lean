import PeerLink.Proofs.LifecycleSteps

/-! # Runs of a lifecycle

* `Tally.Course`: how far a pipe that was taken up has come; `Tally.Quiet`: a time without a start.
* `Lifecycle.Kept`: what each move keeps, and so every run.
* `Lifecycle.inTime_endless`: with a clock that has no end every run is in time.
* `Lifecycle.ofMoves_lawful`: the laws hold after every run that is in time.
* `Lifecycle.overlong_unlawful`: a run that is not in time leaves the session open.
-/

namespace PeerLink
set_option autoImplicit false

/-! ## Sessions in a history -/

namespace Tally
variable {t : Tally} {left between : List LifeEvent} {e : LifeEvent}

/-- How far a pipe that was taken up has come, with the events of its session still to come. -/
inductive Course (t : Tally) : List LifeEvent → Prop
  | taken (hreached : t.reached = t.opened + 1) (hended : t.ended = t.opened) :
    Course t [.opened, .ended]
  | begun (h : t.InSession) : Course t [.ended]
  | closed (h : t.Balanced) (hshown : t.shown = .stopping) : Course t []

theorem Course.nil_of_balanced (h : t.Course left) (hbalanced : t.Balanced) : left = [] := by
  cases h with
  | taken hreached => exact absurd (hreached.symm.trans hbalanced.1.symm) (Nat.succ_ne_self _)
  | begun h => exact absurd h hbalanced.not_inSession
  | closed => rfl

theorem Allows.balanced (h : t.Allows e) (he : e.Ends) : t.Balanced := by
  obtain rfl | rfl := he
  · exact h.2.1
  · exact h.2 rfl

/-- Only the event that is still to come may mark the course. -/
theorem Course.step (h : t.Course left) (hallows : t.Allows e) (hends : ¬ e.Ends) :
    ∃ rest, left = [e].filter LifeEvent.marks ++ rest ∧ (t.add e).Course rest := by
  cases h with
  | taken hreached hended =>
    have hnot : ¬ t.Balanced := fun h => Nat.succ_ne_self _ (hreached.symm.trans h.1.symm)
    cases e with
    | started | stopped => exact absurd hallows.1 hnot
    | attempted | reached => exact absurd hallows.2.1 hnot
    | published s => exact ⟨_, rfl, .taken hreached hended⟩
    | opened => exact ⟨_, rfl, .begun ⟨hreached.symm, congrArg (· + 1) hended.symm⟩⟩
    | ended =>
      exact absurd (hreached.symm.trans hallows.2.1.1.symm) (Nat.succ_ne_self _)
  | begun h =>
    have hnot : ¬ t.Balanced := fun hbalanced => hbalanced.not_inSession h
    cases e with
    | started | stopped => exact absurd hallows.1 hnot
    | attempted | reached => exact absurd hallows.2.1 hnot
    | published s => exact ⟨_, rfl, .begun h⟩
    | opened => exact absurd (hallows.2.1.symm.trans h.1.symm) (Nat.succ_ne_self _)
    | ended => exact ⟨_, rfl, .closed ⟨h.1, h.2.symm⟩ hallows.2.2⟩
  | closed h hshown =>
    cases e with
    | started | stopped => exact nomatch hshown.symm.trans hallows.2
    | attempted => exact absurd (.inl rfl) hends
    | reached => exact nomatch hshown.symm.trans hallows.2.2.1
    | published s =>
      obtain rfl | ⟨-, hedge⟩ := hallows.1
      · exact ⟨_, rfl, .closed h hshown⟩
      -- From here the state can only become the one that ends the course.
      · rw [hshown] at hedge
        cases hedge
        exact absurd (.inr rfl) hends
    | opened => exact absurd (hallows.2.1.symm.trans h.1.symm) (Nat.succ_ne_self _)
    | ended => exact absurd hallows.2.1 h.not_inSession

theorem Course.run (h : t.Course left) (hallowed : t.Allowed (between ++ [e])) (he : e.Ends)
    (hbetween : ∀ x ∈ between, ¬ x.Ends) : between.filter LifeEvent.marks = left := by
  induction between generalizing t left with
  | nil => exact (h.nil_of_balanced (hallowed.1.balanced he)).symm
  | cons x between ih =>
    obtain ⟨hx, hbetween⟩ := List.forall_mem_cons.mp hbetween
    obtain ⟨rest, rfl, hrest⟩ := h.step hallowed.1 hx
    rw [← ih hrest hallowed.2 hbetween]
    exact List.filter_append [x] between

/-! ## Between a stop and the next start -/

structure Quiet (t : Tally) : Prop where
  active : t.active = false
  shown : t.shown = .disconnected

theorem Quiet.allows (h : t.Quiet) (hallows : t.Allows e) :
    e = .started ∨ (e = .stopped ∨ e = .published .disconnected) ∧ (t.add e).Quiet := by
  have hidle : t.active ≠ true := fun hactive => Bool.noConfusion (h.active.symm.trans hactive)
  cases e with
  | started => exact .inl rfl
  | stopped => exact .inr ⟨.inl rfl, rfl, h.shown⟩
  | published s =>
    obtain rfl | ⟨hactive, -⟩ := hallows.1
    · exact .inr ⟨.inr (congrArg _ h.shown), h.active, h.shown⟩
    · exact absurd hactive hidle
  | attempted | reached | opened | ended => exact absurd hallows.1 hidle

theorem Quiet.run (h : t.Quiet) (hallowed : t.Allowed (between ++ [e]))
    (hbetween : ∀ x ∈ between, x ≠ .started) :
    e = .started ∨ e = .stopped ∨ e = .published .disconnected := by
  induction between generalizing t with
  | nil => exact (h.allows hallowed.1).imp_right And.left
  | cons x between ih =>
    obtain ⟨hx, hbetween⟩ := List.forall_mem_cons.mp hbetween
    exact ih ((h.allows hallowed.1).resolve_left hx).2 hallowed.2 hbetween

/-- What follows an event of a history may follow the tally at that time. -/
theorem Allowed.rest {before later : List LifeEvent} {first : LifeEvent}
    (h : ({} : Tally).Allowed (before ++ first :: (between ++ e :: later))) :
    (ofHistory before).Allows first ∧
      ((ofHistory before).add first).Allowed (between ++ [e]) := by
  obtain ⟨-, hfirst, hrest⟩ := allowed_append.mp h
  rw [List.append_cons] at hrest
  exact ⟨hfirst, (allowed_append.mp hrest).1⟩

end Tally

/-! ## Moves -/

namespace Lifecycle
variable {σ : Type} {l : Lifecycle σ}

/-- The driver of the last start, until a stop that waits for it has returned. -/
def owner (l : Lifecycle σ) : Option Nat := l.stopping.getD l.connection.owned

def phase? (l : Lifecycle σ) : Option Phase := l.owner.bind l.connection.phaseOf?

structure Kept (l : Lifecycle σ) : Prop where
  allowed : ({} : Tally).Allowed l.history
  taken : l.stopping.isSome → l.connection.owned = none
  /-- No other driver runs. -/
  sole : ∀ id, l.connection.drivers.contains id = true → l.owner = some id
  agrees : l.connection.Agrees (Tally.ofHistory l.history) l.phase?

theorem Kept.ofSettings (config : LinkConfig) (tree : σ) (asks serves : Bool)
    (horizon : Option Nat) : (Lifecycle.ofSettings config tree asks serves horizon).Kept := by
  have hunbound :
      (Lifecycle.ofSettings config tree asks serves horizon).connection.endpoint.peer.Unbound := by
    refine ⟨fun q hq => ?_, fun r hr => ?_, rfl⟩
    · cases asks with
      | true => exact Option.some.inj hq ▸ .start
      | false => cases hq
    · cases serves with
      | true => exact Option.some.inj hr ▸ .start
      | false => cases hr
  exact ⟨trivial, nofun, nofun, ⟨rfl, rfl, rfl, Nat.le_refl 0⟩, nofun, rfl, ⟨rfl, rfl⟩, rfl,
    hunbound, fun _ hlive => Worker.not_live_start hlive⟩

theorem Kept.withEndpoint (h : l.Kept) {endpoint : Endpoint σ}
    (hcalm : l.connection.endpoint.Calm endpoint) : (l.withEndpoint endpoint).Kept :=
  ⟨h.allowed, h.taken, h.sole, h.agrees.calm hcalm⟩

theorem Kept.foresee (h : l.Kept) (policy : ReconnectPolicy) (outcomes : List ConnectOutcome) :
    (l.foresee policy outcomes).Kept :=
  ⟨h.allowed, h.taken, h.sole, { h.agrees.tells with }, h.agrees.active, h.agrees.demands⟩

/-! ### Drivers -/

theorem Kept.sees (h : l.Kept) {id : Nat} {es : List LifeEvent} {c : Connection σ}
    (hid : l.owner = some id) (hleads : l.connection.Leads id (Tally.ofHistory l.history) es c) :
    (l.sees es c).Kept := by
  have howner : (l.sees es c).owner = some id := by
    rw [← hid]
    exact congrArg l.stopping.getD hleads.owned
  refine ⟨Tally.allowed_append.mpr ⟨h.allowed, hleads.allowed⟩,
    fun hstopping => hleads.owned.trans (h.taken hstopping), fun other hother => ?_, ?_⟩
  · by_cases heq : other = id
    · rw [howner, heq]
    · rw [Table.contains, Lifecycle.sees, hleads.others other heq] at hother
      rw [howner, ← hid]
      exact h.sole other hother
  · rw [phase?, howner, Lifecycle.sees, Tally.ofHistory, Tally.addAll_append]
    exact hleads.agrees

/-- Without the driver that is waited for there is none. -/
theorem Kept.absent (h : l.Kept) (hgone : ¬ l.owner.any l.connection.drivers.contains = true) :
    (∀ id, l.connection.drivers.contains id = false) ∧
      l.connection.Agrees (Tally.ofHistory l.history) none := by
  have hnone : ∀ id, l.connection.drivers.contains id = false := fun id => by
    refine Bool.eq_false_iff.mpr fun hid => hgone ?_
    rw [h.sole id hid]
    exact hid
  have hphase : l.phase? = none := by
    refine Option.bind_eq_none_iff.mpr fun id _ => ?_
    rw [Connection.phaseOf?, Option.map_eq_none_iff]
    exact Option.isNone_iff_eq_none.mp (Option.isSome_eq_false_iff.mp (hnone id))
  exact ⟨hnone, hphase ▸ h.agrees⟩

/-! ### Calls -/

theorem owner_of_none (h : l.stopping = none) : l.owner = l.connection.owned := by
  rw [owner, h]
  rfl

theorem Kept.start (h : l.Kept) : l.start.Kept := by
  unfold Lifecycle.start
  split
  · exact h
  · rename_i hsome
    have hstopping := Option.not_isSome_iff_eq_none.mp hsome
    have howner := owner_of_none hstopping
    unfold Connection.start
    by_cases hrunning : l.connection.owned.any l.connection.drivers.contains = true
    · simp only [hrunning, if_true, Bool.false_eq_true, if_false, List.append_nil]
      exact h
    · obtain ⟨hnone, hagrees⟩ := h.absent (howner ▸ hrunning)
      obtain ⟨hshown, hbalanced, hidle⟩ := hagrees.demands
      -- The driver of this start is the only one, since those before it are done.
      simp only [hrunning, if_false, if_true, Bool.false_eq_true]
      refine ⟨Tally.allowed_append.mpr ⟨h.allowed, ⟨hbalanced, hshown⟩, trivial⟩,
        fun hsome' => absurd hsome' hsome, fun id hid => ?_, ?_⟩
      · show l.stopping.getD (some l.connection.nextDriver) = some id
        rw [hstopping]
        by_contra hother
        have hne : id ≠ l.connection.nextDriver := fun heq => hother (congrArg some heq.symm)
        rw [Table.contains, Connection.setDriver_others _ _ _ _ hne] at hid
        exact Bool.noConfusion (hid.symm.trans (hnone id))
      · rw [phase?, owner, hstopping]
        show Connection.Agrees _ _ (Connection.phaseOf? _ l.connection.nextDriver)
        rw [Connection.setDriver_phase, Tally.ofHistory, Tally.addAll_append]
        exact ⟨{ hagrees.tells with }, fun _ => rfl, hshown, hbalanced, hidle⟩

theorem Kept.askStop (h : l.Kept) : l.askStop.Kept := by
  unfold Lifecycle.askStop
  split
  · exact h
  · rename_i hsome
    have howner := owner_of_none (Option.not_isSome_iff_eq_none.mp hsome)
    refine ⟨h.allowed, fun _ => rfl, fun id hid => howner.symm.trans (h.sole id hid), ?_⟩
    have hphase : l.phase? = l.connection.owned.bind l.connection.phaseOf? := by
      rw [phase?, howner]
    have hagrees := h.agrees
    rw [hphase] at hagrees
    exact ⟨{ hagrees.tells with }, hagrees.active, hagrees.demands⟩

theorem Kept.confirmStop (h : l.Kept) : l.confirmStop.Kept := by
  unfold Lifecycle.confirmStop
  cases hstopping : l.stopping with
  | none => exact h
  | some awaited =>
    dsimp only
    split
    · exact h
    · rename_i hgone
      have howner : l.owner = awaited := by
        rw [owner, hstopping]
        rfl
      obtain ⟨hnone, hagrees⟩ := h.absent (howner ▸ hgone)
      obtain ⟨hshown, hbalanced, hidle⟩ := hagrees.demands
      have hquiet : (Tally.ofHistory l.history).Allowed [.published .disconnected, .stopped] :=
        ⟨⟨.inl hshown.symm, fun _ => hbalanced⟩, ⟨hbalanced, rfl⟩, trivial⟩
      have howned : l.connection.owned = none := h.taken (hstopping ▸ rfl)
      refine ⟨?_, fun h => absurd h Bool.false_ne_true,
        fun id hid => Bool.noConfusion (hid.symm.trans (hnone id)), ?_⟩
      · exact Tally.allowed_append.mpr ⟨h.allowed, hquiet⟩
      · rw [phase?, owner]
        show Connection.Agrees _ (Tally.ofHistory (l.history ++
          [.published .disconnected, .stopped])) (l.connection.owned.bind _)
        rw [howned, Tally.ofHistory, Tally.addAll_append]
        exact ⟨{ hagrees.tells with shown := rfl }, fun h => absurd h Bool.false_ne_true, rfl,
          hbalanced, hidle⟩

/-! ### Laws -/

theorem Kept.laws (h : l.Kept) : l.Lawful where
  allowed := fun before e later hsplit => by
    obtain ⟨-, hevent, -⟩ := Tally.allowed_append.mp (hsplit ▸ h.allowed)
    exact hevent
  once := by
    intro before between later e hsplit he hbetween
    obtain ⟨⟨-, hbalanced, -⟩, hrest⟩ := Tally.Allowed.rest (hsplit ▸ h.allowed)
    have hcourse : ((Tally.ofHistory before).add .reached).Course [.opened, .ended] :=
      .taken (congrArg (· + 1) hbalanced.1.symm) hbalanced.2
    exact hcourse.run hrest he hbetween
  silent := by
    intro before between later e hsplit hbetween
    obtain ⟨⟨-, hshown⟩, hrest⟩ := Tally.Allowed.rest (hsplit ▸ h.allowed)
    have hquiet : ((Tally.ofHistory before).add .stopped).Quiet := ⟨rfl, hshown⟩
    exact hquiet.run hrest hbetween
  shown := h.agrees.tells.shown
  attempts := h.agrees.tells.attempts
  sessions := h.agrees.tells.links
  begun := h.agrees.demands.idle_or_busy.elim (fun x => x.1.1) fun x => x.2.1.1
  running := by
    obtain ⟨hbalanced, hidle⟩ | ⟨-, hbegun, _, hbusy⟩ := h.agrees.demands.idle_or_busy
    · exact iff_of_false (fun hsome => hsome hidle.session) hbalanced.not_inSession
    · exact iff_of_true hbusy.session hbegun
  bound := fun hbegun => by
    obtain ⟨hbalanced, -⟩ | ⟨-, -, _, hbusy⟩ := h.agrees.demands.idle_or_busy
    · exact absurd hbegun hbalanced.not_inSession
    · exact hbusy.bound
  unbound := fun hstate => by
    obtain ⟨-, hidle⟩ | ⟨hshown, -⟩ := h.agrees.demands.idle_or_busy
    · exact hidle.unbound
    · exact absurd (h.agrees.tells.shown.symm.trans hstate) hshown
  timers := fun id hlive => by
    obtain ⟨-, hidle⟩ | ⟨-, hbegun, -⟩ := h.agrees.demands.idle_or_busy
    · exact absurd hlive (hidle.timers id)
    · exact hbegun

/-! ### Moves that are in time -/

theorem overruns_of_endless (h : l.connection.horizon = none) (m : Move σ) :
    l.overruns m = false := by
  cases m with
  | drive id stopFirst => rw [overruns, Connection.overruns_endless h, Bool.and_false]
  | _ => rfl

/-! ## Runs -/

variable [ValueTree σ]

theorem Kept.leads (h : l.Kept) {id : Nat} {stopFirst : Bool}
    {act : Connection.Effects × Connection σ} (hin : l.overruns (.drive id stopFirst) = false)
    (hact : l.connection.step? id stopFirst = some act) :
    l.owner = some id ∧ l.connection.Leads id (Tally.ofHistory l.history)
      (l.connection.seen id stopFirst act.1) act.2 := by
  obtain ⟨d, hd, -⟩ := Option.bind_eq_some_iff.mp hact
  have hid : l.owner = some id := h.sole id (Option.isSome_iff_exists.mpr ⟨d, hd⟩)
  have hagrees := h.agrees
  rw [phase?, hid] at hagrees
  refine ⟨hid, hagrees.step? (fun htakes => ?_) hact⟩
  rwa [overruns, htakes, Bool.true_and] at hin

theorem Kept.after (h : l.Kept) {m : Move σ} (hin : l.overruns m = false) : (l.after m).Kept := by
  cases m with
  | start => exact h.start
  | askStop => exact h.askStop
  | confirmStop => exact h.confirmStop
  | foresee policy outcomes => exact h.foresee policy outcomes
  | report why => exact h.withEndpoint .of_session
  | receive now bs => exact h.withEndpoint (Endpoint.receive_calm now _ bs)
  | hangUp => exact h.withEndpoint (Endpoint.hangUp_calm _)
  | advance ms => exact h.withEndpoint (Endpoint.advance_calm _ ms)
  | change act => exact h.withEndpoint (Endpoint.change_calm _ act)
  | drive id stopFirst =>
    unfold Lifecycle.after
    dsimp only
    cases hact : l.connection.step? id stopFirst with
    | none => exact h
    | some act =>
      obtain ⟨hid, hleads⟩ := h.leads hin hact
      exact h.sees hid hleads
  | use call =>
    unfold Lifecycle.after
    dsimp only
    split
    · rename_i hcall
      cases hact : l.connection.endpoint.use? call with
      | none => exact h
      | some act => exact h.withEndpoint (Endpoint.use?_calm hcall hact)
    · exact h
  | work now place =>
    unfold Lifecycle.after
    dsimp only
    cases hact : l.connection.endpoint.workAt? now place with
    | none => exact h
    | some act => exact h.withEndpoint (Endpoint.workAt?_calm hact)

theorem Kept.ofMoves (h : l.Kept) {moves : List (Move σ)} (hin : l.InTime moves) :
    (l.ofMoves moves).Kept := by
  induction moves generalizing l with
  | nil => exact h
  | cons m moves ih => exact ih (h.after hin.1) hin.2

/-- Drivers that go as far as they can make moves like any others. -/
theorem restFor_moves (fuel : Nat) (l : Lifecycle σ) :
    ∃ ids : List Nat, (l.ofMoves (ids.map (.drive · false))).connection =
      (l.connection.restFor fuel).2 := by
  induction fuel generalizing l with
  | zero => exact ⟨[], rfl⟩
  | succ fuel ih =>
    unfold Connection.restFor
    cases hstep : l.connection.anyStep? with
    | none => exact ⟨[], rfl⟩
    | some act =>
      obtain ⟨id, -, hact⟩ := List.exists_of_findSome?_eq_some hstep
      have hmove : (l.after (.drive id false)).connection = act.2 := by
        unfold Lifecycle.after
        dsimp only
        rw [hact]
        rfl
      obtain ⟨ids, hids⟩ := ih (l.after (.drive id false))
      rw [hmove] at hids
      exact ⟨id :: ids, hids⟩

/-! ### The end of the clock -/

theorem Kept.after_horizon (h : l.Kept) {m : Move σ} (hin : l.overruns m = false) :
    (l.after m).connection.horizon = l.connection.horizon := by
  cases m with
  | start =>
    have hstart : l.connection.start.2.horizon = l.connection.horizon := by
      unfold Connection.start
      split <;> rfl
    show l.start.connection.horizon = _
    unfold Lifecycle.start
    split
    · rfl
    · exact hstart
  | askStop =>
    show l.askStop.connection.horizon = _
    unfold Lifecycle.askStop
    split <;> rfl
  | confirmStop =>
    show l.confirmStop.connection.horizon = _
    unfold Lifecycle.confirmStop
    split
    · rfl
    · split <;> rfl
  | foresee | report | receive | hangUp | advance | change => rfl
  | drive id stopFirst =>
    unfold Lifecycle.after
    dsimp only
    cases hact : l.connection.step? id stopFirst with
    | none => rfl
    | some act => exact (h.leads hin hact).2.horizon
  | use call =>
    unfold Lifecycle.after
    dsimp only
    split
    · split <;> rfl
    · rfl
  | work now place =>
    unfold Lifecycle.after
    dsimp only
    split <;> rfl

/-- With a clock that has no end every run is in time. -/
theorem inTime_endless (config : LinkConfig) (tree : σ) (asks serves : Bool)
    (moves : List (Move σ)) : (ofSettings config tree asks serves none).InTime moves := by
  suffices hkept : ∀ l : Lifecycle σ, l.Kept → l.connection.horizon = none → l.InTime moves from
    hkept _ (.ofSettings config tree asks serves none) rfl
  induction moves with
  | nil => exact fun _ _ _ => trivial
  | cons m moves ih =>
    intro l h hhorizon
    have hin := overruns_of_endless hhorizon m
    exact ⟨hin, ih _ (h.after hin) ((h.after_horizon hin).trans hhorizon)⟩

/-! ### All runs -/

/-- Whatever happens, and however policy and connector answer, as long as no pipe is taken up so
late that the clock cannot name the time of the first ping. -/
theorem ofMoves_lawful (config : LinkConfig) (tree : σ) (asks serves : Bool)
    (horizon : Option Nat) (moves : List (Move σ))
    (h : (ofSettings config tree asks serves horizon).InTime moves) :
    ((ofSettings config tree asks serves horizon).ofMoves moves).Lawful :=
  ((Kept.ofSettings config tree asks serves horizon).ofMoves h).laws

/-- A peer that asks and serves, on a clock that may have an end. -/
def host (horizon : Option Nat) : Lifecycle (MemoryTree Binding) :=
  ofSettings {} {} true true horizon

/-- An attempt is refused, the next one succeeds, and somebody stops just when the other peer hangs
up. -/
def stoppedLate : List (Move (MemoryTree Binding)) :=
  [.foresee (.backoff ⟨5, 5, 0⟩) [.refuse], .start, .drive 0 false, .drive 0 false, .advance 5,
    .drive 0 false, .drive 0 false, .drive 0 false, .hangUp, .askStop, .drive 0 true,
    .drive 0 false, .confirmStop]

theorem stoppedLate_lawful :
    (host (some 30005)).InTime stoppedLate ∧ ((host (some 30005)).ofMoves stoppedLate).Lawful := by
  have hin : (host (some 30005)).InTime stoppedLate := by decide +kernel
  exact ⟨hin, ofMoves_lawful {} ({} : MemoryTree Binding) true true (some 30005) stoppedLate hin⟩

example : ((host (some 30005)).ofMoves stoppedLate).history =
    [.started, .published .connecting, .attempted, .published .disconnected,
      .published .connecting, .attempted, .reached, .opened, .published .connected,
      .published .stopping, .ended, .published .disconnected, .published .disconnected,
      .stopped] := by
  decide +kernel

/-- A client that is to send its pings so rarely that the clock ends before the first one. -/
def overlong : Lifecycle (MemoryTree Binding) :=
  ofSettings { keepaliveSecs := 2 ^ 63 - 1 } {} true false (some (Session.millis (2 ^ 63 - 1) - 1))

/-- One stop after one start. -/
def startedAndStopped : List (Move (MemoryTree Binding)) :=
  [.start, .drive 0 false, .drive 0 false, .askStop, .confirmStop]

/-- The session begins, and its end does not come before it is published that there is no
connection. -/
theorem overlong_unlawful :
    (overlong.ofMoves startedAndStopped).history =
        [.started, .published .connecting, .attempted, .reached, .opened, .published .connected,
          .published .disconnected, .stopped] ∧
      (overlong.ofMoves startedAndStopped).connection.state = .disconnected ∧
      (overlong.ofMoves startedAndStopped).connection.endpoint.peer.requester.any
        Requester.isConnected = true ∧
      ¬ (overlong.ofMoves startedAndStopped).Lawful := by
  have hstate : (overlong.ofMoves startedAndStopped).connection.state = .disconnected := by
    decide +kernel
  have hconnected : (overlong.ofMoves startedAndStopped).connection.endpoint.peer.requester.any
      Requester.isConnected = true := by
    decide +kernel
  refine ⟨by decide +kernel, hstate, hconnected, fun h => ?_⟩
  obtain ⟨q, hq, hisConnected⟩ := (Option.any_eq_true _ _).mp hconnected
  have hout : q.outlet = none := ((h.unbound hstate).requester q hq).outlet
  rw [Requester.isConnected, hout] at hisConnected
  cases hisConnected

end Lifecycle
end PeerLink
