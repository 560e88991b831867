import PeerLink.Proofs.Lifecycle

/-! # Steps of a driver

* `Tally.Allowed`: events that may come one after another.
* `Endpoint.Idle`, `Endpoint.Busy`: an endpoint between sessions, and in one.
* `Connection.Heeds`, `Connection.GoesOn`: all that a driver can do in one step.
* `Connection.Agrees`: a connection is as the tally of what was seen says, and as the phase of its
  driver demands.
* `Connection.Leads`: events that may be seen, and a connection that agrees with them afterwards.
  Every way out of a session or an attempt ends in `Down`.
* `Connection.Agrees.step?`: each step of a driver leads on, unless it takes up a pipe too late.
-/

namespace PeerLink
set_option autoImplicit false

/-! ## Events in a row -/

namespace Tally

def Allowed : Tally → List LifeEvent → Prop
  | _, [] => True
  | t, e :: es => t.Allows e ∧ (t.add e).Allowed es

theorem addAll_append (t : Tally) (es es' : List LifeEvent) :
    t.addAll (es ++ es') = (t.addAll es).addAll es' := List.foldl_append

theorem allowed_append {t : Tally} {es es' : List LifeEvent} :
    t.Allowed (es ++ es') ↔ t.Allowed es ∧ (t.addAll es).Allowed es' := by
  induction es generalizing t with
  | nil => exact (iff_of_eq (true_and _)).symm
  | cons e es ih => exact (and_congr_right' ih).trans and_assoc.symm

theorem Balanced.not_inSession {t : Tally} (h : t.Balanced) : ¬ t.InSession := fun h' => by
  have hended := h.2
  have hopened := h'.2
  omega

end Tally

theorem LifeEvent.ofEffects_append (es es' : Connection.Effects) :
    ofEffects (es ++ es') = ofEffects es ++ ofEffects es' := List.filterMap_append

theorem LifeEvent.ofEffects_endpoint (es : Endpoint.Effects) :
    ofEffects (Connection.ofEndpoint es) = [] := by
  induction es with
  | nil => rfl
  | cons e es ih => exact ih

/-! ## Endpoints -/

namespace Endpoint
variable {σ : Type}

/-- No session runs, and nothing is open. -/
structure Idle (e : Endpoint σ) : Prop where
  session : e.session = none
  unbound : e.peer.Unbound
  timers : ∀ id, ¬ e.peer.worker.Live id

/-- A session runs that the peer is bound to, and no other timer is live than the one that keeps it
alive. -/
structure Busy (e : Endpoint σ) (keepalive : Option Nat) : Prop where
  session : e.session ≠ none
  bound : e.peer.BoundTo e.links
  timers : ∀ id, e.peer.worker.Live id → keepalive = some id

variable {e e' : Endpoint σ} {keepalive : Option Nat}

theorem Idle.calm (h : e.Idle) (hcalm : e.Calm e') : e'.Idle where
  session := hcalm.session.mpr h.session
  unbound := hcalm.unbound h.session h.unbound
  timers := fun id hlive => h.timers id (hcalm.timers.live hlive)

theorem Busy.calm (h : e.Busy keepalive) (hcalm : e.Calm e') : e'.Busy keepalive where
  session := fun hnone => h.session (hcalm.session.mp hnone)
  bound := hcalm.links ▸ hcalm.bound e.links h.bound
  timers := fun id hlive => h.timers id (hcalm.timers.live hlive)

variable [ValueTree σ]

theorem Busy.disconnect (h : e.Busy none) : e.disconnect.2.Idle := by
  obtain ⟨hsession, -, hfades, hunbound⟩ := e.disconnect_unbound
  exact ⟨hsession, hunbound, fun id hlive => nomatch h.timers id (hfades.live hlive)⟩

end Endpoint

namespace Connection
variable {σ : Type}

theorem addKeepalive_links (e : Endpoint σ) : (addKeepalive e).2.links = e.links := by
  unfold addKeepalive
  split <;> rfl

/-- The timer is the only one, if there was none before. -/
theorem addKeepalive_busy {e : Endpoint σ} (hsession : e.session ≠ none)
    (hbound : e.peer.BoundTo e.links) (htimers : ∀ id, ¬ e.peer.worker.Live id) :
    (addKeepalive e).2.Busy (addKeepalive e).1 := by
  unfold addKeepalive
  split
  · exact ⟨hsession, hbound, fun id hlive => absurd hlive (htimers id)⟩
  · refine ⟨hsession, ⟨hbound.requester, hbound.responder⟩, fun id hlive => ?_⟩
    obtain hlive | rfl := Worker.live_every hlive
    · exact absurd hlive (htimers id)
    · rfl

theorem cancelKeepalive_links (e : Endpoint σ) (keepalive : Option Nat) :
    (cancelKeepalive e keepalive).links = e.links := by
  cases keepalive <;> rfl

theorem cancelKeepalive_busy {e : Endpoint σ} {keepalive : Option Nat} (h : e.Busy keepalive) :
    (cancelKeepalive e keepalive).Busy none := by
  cases keepalive with
  | none => exact h
  | some timer =>
    refine ⟨h.session, ⟨h.bound.requester, h.bound.responder⟩, fun id hlive => ?_⟩
    obtain rfl := Option.some.inj (h.timers id ((Worker.cancel_fades _ timer).live hlive))
    exact absurd hlive (Worker.cancel_not_live _ timer)

end Connection

/-! ## What a driver can do -/

/-- Neither an attempt nor a session is under way. -/
def Phase.Rests (phase : Phase) : Prop := phase = .ready ∨ ∃ time, phase = .waiting time

namespace Connection
variable {σ : Type}

/-- A driver heeds the wish to stop: it is done at once, or it ends its session. -/
inductive Heeds (c : Connection σ) (id : Nat) (d : Driver) : Effects × Connection σ → Prop
  | rests (phase : d.phase.Rests) : Heeds c id d (c.quit id)
  | connecting (o : ConnectOutcome) (phase : d.phase = .connecting o) : Heeds c id d (c.quit id)
  | running (keepalive : Option Nat) (phase : d.phase = .running keepalive) :
      Heeds c id d (c.beginClosing id d keepalive .stopped)

/-- A driver goes on with what it does. -/
inductive GoesOn [ValueTree σ] (c : Connection σ) (id : Nat) (d : Driver) :
    Effects × Connection σ → Prop
  | attempts (phase : d.phase = .ready) (goes : c.stopWished = false) :
      GoesOn c id d (c.attempt id d)
  | succeeds (phase : d.phase = .connecting .ok) : GoesOn c id d (c.establish id)
  | fails (phase : d.phase = .connecting .refuse) : GoesOn c id d (c.setback id d)
  | closes (keepalive : Option Nat) (why : DisconnectReason) (phase : d.phase = .running keepalive)
      (reason : c.endpoint.reason? = some why) :
      GoesOn c id d (c.beginClosing id d keepalive why)
  | ends (why : DisconnectReason) (phase : d.phase = .closing why) :
      GoesOn c id d (c.close id d why)
  | wakes (time : Nat) (phase : d.phase = .waiting time) :
      GoesOn c id d ([], c.setDriver id { d with phase := .ready })

variable {c : Connection σ} {id : Nat} {d : Driver} {act : Effects × Connection σ}

theorem heedStop?_wish (hact : c.heedStop? id d = some act) : c.stopWished = true := by
  unfold heedStop? at hact
  split at hact
  · assumption
  · cases hact

/-- The wish is heeded in each phase but the last. -/
theorem heedStop?_cases (hact : c.heedStop? id d = some act) : c.Heeds id d act := by
  rw [heedStop?, if_pos (heedStop?_wish hact)] at hact
  cases hphase : d.phase with
  | ready =>
    rw [hphase] at hact
    obtain rfl := Option.some.inj hact
    exact .rests (.inl hphase)
  | waiting time =>
    rw [hphase] at hact
    obtain rfl := Option.some.inj hact
    exact .rests (.inr ⟨time, hphase⟩)
  | connecting o =>
    rw [hphase] at hact
    obtain rfl := Option.some.inj hact
    exact .connecting o hphase
  | running keepalive =>
    rw [hphase] at hact
    obtain rfl := Option.some.inj hact
    exact .running keepalive hphase
  | closing why =>
    rw [hphase] at hact
    cases hact

variable [ValueTree σ]

theorem goOn?_cases (hact : c.goOn? id d = some act) : c.GoesOn id d act := by
  unfold goOn? at hact
  cases hphase : d.phase with
  | ready =>
    rw [hphase] at hact
    dsimp only at hact
    split at hact
    · cases hact
    · rename_i hwish
      obtain rfl := Option.some.inj hact
      exact .attempts hphase (Bool.eq_false_iff.mpr hwish)
  | connecting o =>
    rw [hphase] at hact
    cases o with
    | ok =>
      obtain rfl := Option.some.inj hact
      exact .succeeds hphase
    | refuse =>
      obtain rfl := Option.some.inj hact
      exact .fails hphase
    | hang => cases hact
  | running keepalive =>
    rw [hphase] at hact
    obtain ⟨why, hwhy, rfl⟩ := Option.map_eq_some_iff.mp hact
    exact .closes keepalive why hphase hwhy
  | closing why =>
    rw [hphase] at hact
    obtain rfl := Option.some.inj hact
    exact .ends why hphase
  | waiting time =>
    rw [hphase] at hact
    dsimp only at hact
    split at hact
    · obtain rfl := Option.some.inj hact
      exact .wakes time hphase
    · cases hact

/-- A driver heeds the wish to stop and takes up no pipe, or it goes on, and takes up the pipe of an
attempt that has succeeded. -/
theorem step?_cases {stopFirst : Bool} (hact : c.step? id stopFirst = some act) :
    ∃ d, c.drivers.get? id = some d ∧
      (c.stopWished = true ∧ c.Heeds id d act ∧ c.takesUp id stopFirst = false ∨
        c.GoesOn id d act ∧ c.takesUp id stopFirst = decide (d.phase = .connecting .ok)) := by
  obtain ⟨d, hd, hstep⟩ := Option.bind_eq_some_iff.mp hact
  refine ⟨d, hd, ?_⟩
  have htakes : c.takesUp id stopFirst =
      (decide (d.phase = .connecting .ok) && !(stopFirst && c.stopWished)) := by
    rw [takesUp, phaseOf?, hd, Option.map_some]
    simp only [Option.some.injEq]
  rw [htakes]
  cases stopFirst with
  | true =>
    obtain hheeds | ⟨hignores, hgoes⟩ := Option.or_eq_some_iff.mp hstep
    · have hwish := heedStop?_wish hheeds
      refine .inl ⟨hwish, heedStop?_cases hheeds, ?_⟩
      rw [hwish, Bool.and_self, Bool.not_true, Bool.and_false]
    · refine .inr ⟨goOn?_cases hgoes, ?_⟩
      by_cases hphase : d.phase = .connecting .ok
      -- In this phase nothing is ignored but a wish that is not there.
      · have hfree : c.stopWished = false := by
          refine Bool.eq_false_iff.mpr fun hwish => ?_
          rw [heedStop?, if_pos hwish, hphase] at hignores
          cases hignores
        rw [hfree, Bool.and_false, Bool.not_false, Bool.and_true]
      · rw [decide_eq_false hphase, Bool.false_and]
  | false =>
    obtain hgoes | ⟨hwaits, hheeds⟩ := Option.or_eq_some_iff.mp hstep
    · refine .inr ⟨goOn?_cases hgoes, ?_⟩
      rw [Bool.false_and, Bool.not_false, Bool.and_true]
    · have hphase : d.phase ≠ .connecting .ok := fun hphase => by
        rw [goOn?, hphase] at hwaits
        cases hwaits
      refine .inl ⟨heedStop?_wish hheeds, heedStop?_cases hheeds, ?_⟩
      rw [decide_eq_false hphase, Bool.false_and]

end Connection

/-! ## Connections -/

/-- How the endpoint is, and what the tally is, while the driver is in a phase or there is none. -/
def Phase.Demands {σ : Type} (e : Endpoint σ) (t : Tally) : Option Phase → Prop
  | none | some .ready | some (.waiting _) => t.shown = .disconnected ∧ t.Balanced ∧ e.Idle
  | some (.connecting _) =>
    t.shown = .connecting ∧ t.Balanced ∧ e.Idle ∧ t.reached < t.attempts
  | some (.running keepalive) => t.shown = .connected ∧ t.InSession ∧ e.Busy keepalive
  | some (.closing _) => t.shown = .stopping ∧ t.InSession ∧ e.Busy none

/-- In all phases but two nothing is open. -/
theorem Phase.Demands.idle_or_busy {σ : Type} {e : Endpoint σ} {t : Tally}
    {phase? : Option Phase} (h : Phase.Demands e t phase?) :
    (t.Balanced ∧ e.Idle) ∨
      t.shown ≠ .disconnected ∧ t.InSession ∧ ∃ keepalive, e.Busy keepalive := by
  cases phase? with
  | none => exact .inl h.2
  | some phase =>
    cases phase with
    | ready | waiting => exact .inl h.2
    | connecting => exact .inl ⟨h.2.1, h.2.2.1⟩
    | running keepalive =>
      exact .inr ⟨fun hshown => absurd (h.1.symm.trans hshown) nofun, h.2.1, keepalive, h.2.2⟩
    | closing =>
      exact .inr ⟨fun hshown => absurd (h.1.symm.trans hshown) nofun, h.2.1, none, h.2.2⟩

namespace Connection
variable {σ : Type}

/-- What is known at any time. -/
structure Tells (c : Connection σ) (t : Tally) : Prop where
  shown : c.state = t.shown
  attempts : c.connector.attempts = t.attempts
  links : c.endpoint.links = t.opened
  made : t.reached ≤ t.attempts

structure Agrees (c : Connection σ) (t : Tally) (phase? : Option Phase) : Prop where
  tells : c.Tells t
  active : phase?.isSome → t.active = true
  demands : Phase.Demands c.endpoint t phase?

/-- A driver does something after a tally: what is seen of it, and how it leaves the connection. -/
structure Leads (c : Connection σ) (id : Nat) (t : Tally) (es : List LifeEvent)
    (c' : Connection σ) : Prop where
  owned : c'.owned = c.owned
  horizon : c'.horizon = c.horizon
  others : ∀ other, other ≠ id → c'.drivers.get? other = c.drivers.get? other
  allowed : t.Allowed es
  agrees : c'.Agrees (t.addAll es) (c'.phaseOf? id)

/-- Nothing is open any more, and it may be published that there is no connection. -/
structure Down (c : Connection σ) (t : Tally) : Prop where
  tells : c.Tells t
  active : t.active = true
  falls : .disconnected = t.shown ∨ t.shown.Edge .disconnected
  balanced : t.Balanced
  idle : c.endpoint.Idle

variable {c : Connection σ} {id : Nat} {d : Driver} {t : Tally}

theorem setDriver_others (c : Connection σ) (id : Nat) (d : Driver) (other : Nat)
    (hother : other ≠ id) : (c.setDriver id d).drivers.get? other = c.drivers.get? other := by
  rw [setDriver, Table.get?_insert, if_neg hother]

theorem setDriver_phase (c : Connection σ) (id : Nat) (d : Driver) :
    (c.setDriver id d).phaseOf? id = some d.phase := by
  rw [phaseOf?, setDriver, Table.get?_insert, if_pos rfl]
  rfl

theorem Agrees.calm {phase? : Option Phase} (h : c.Agrees t phase?) {endpoint : Endpoint σ}
    (hcalm : c.endpoint.Calm endpoint) : { c with endpoint }.Agrees t phase? := by
  refine ⟨{ h.tells with links := hcalm.links.trans h.tells.links }, h.active, ?_⟩
  have hdemands := h.demands
  cases phase? with
  | none => exact ⟨hdemands.1, hdemands.2.1, hdemands.2.2.calm hcalm⟩
  | some phase =>
    cases phase with
    | ready | waiting => exact ⟨hdemands.1, hdemands.2.1, hdemands.2.2.calm hcalm⟩
    | connecting =>
      obtain ⟨hshown, hbalanced, hidle, hmore⟩ := hdemands
      exact ⟨hshown, hbalanced, hidle.calm hcalm, hmore⟩
    | running | closing => exact ⟨hdemands.1, hdemands.2.1, hdemands.2.2.calm hcalm⟩

/-- A driver goes on to another phase. -/
theorem Leads.of_phase {c' : Connection σ} (es : List LifeEvent) (hallowed : t.Allowed es)
    (h : c'.Agrees (t.addAll es) (some d.phase)) (howned : c'.owned = c.owned)
    (hhorizon : c'.horizon = c.horizon) (hdrivers : c'.drivers = c.drivers) :
    c.Leads id t es (c'.setDriver id d) := by
  refine ⟨howned, hhorizon, fun other hother => ?_, hallowed, ?_⟩
  · rw [setDriver_others _ _ _ _ hother, hdrivers]
  · rw [setDriver_phase]
    exact ⟨{ h.tells with }, h.active, h.demands⟩

/-- Events that leave the drivers as they are come before others. -/
theorem Leads.after {c' c'' : Connection σ} (es : List LifeEvent) {es' : List LifeEvent}
    (h : c'.Leads id (t.addAll es) es' c'') (hallowed : t.Allowed es)
    (howned : c'.owned = c.owned) (hhorizon : c'.horizon = c.horizon)
    (hdrivers : c'.drivers = c.drivers) : c.Leads id t (es ++ es') c'' := by
  refine ⟨h.owned.trans howned, h.horizon.trans hhorizon, fun other hother => ?_,
    Tally.allowed_append.mpr ⟨hallowed, h.allowed⟩, ?_⟩
  · rw [h.others other hother, hdrivers]
  · rw [Tally.addAll_append]
    exact h.agrees

/-! ### Ways out -/

theorem Agrees.down {phase : Phase} (h : c.Agrees t (some phase)) (hphase : phase.Rests) :
    c.Down t := by
  have hdemands : t.shown = .disconnected ∧ t.Balanced ∧ c.endpoint.Idle := by
    obtain rfl | ⟨time, rfl⟩ := hphase
    · exact h.demands
    · exact h.demands
  exact ⟨h.tells, h.active rfl, .inl hdemands.1.symm, hdemands.2.1, hdemands.2.2⟩

theorem Agrees.down_of_connecting {o : ConnectOutcome}
    (h : c.Agrees t (some (.connecting o))) : c.Down t := by
  obtain ⟨hshown, hbalanced, hidle, -⟩ := h.demands
  exact ⟨h.tells, h.active rfl, .inr (hshown ▸ .fail), hbalanced, hidle⟩

theorem Down.allows (h : c.Down t) : t.Allows (.published .disconnected) :=
  ⟨h.falls.imp_right (⟨h.active, ·⟩), fun _ => h.balanced⟩

theorem Down.published (h : c.Down t) :
    { c with state := .disconnected }.Down (t.add (.published .disconnected)) :=
  ⟨{ h.tells with shown := rfl }, h.active, .inl rfl, h.balanced, h.idle⟩

theorem Down.quit (h : c.Down t) : c.Leads id t [.published .disconnected] (c.quit id).2 := by
  refine ⟨rfl, rfl, fun other hother => ?_, ⟨h.allows, trivial⟩, ?_⟩
  · exact (Table.get?_erase ..).trans (if_neg hother)
  · have hphase : (c.quit id).2.phaseOf? id = none :=
      congrArg (Option.map Driver.phase) ((Table.get?_erase ..).trans (if_pos rfl))
    rw [hphase]
    exact ⟨{ h.tells with shown := rfl }, nofun, rfl, h.balanced, h.idle⟩

theorem Down.rest (h : c.Down t) (hshown : t.shown = .disconnected) (id : Nat) {d : Driver}
    (hd : d.phase.Rests) : c.Leads id t [] (c.setDriver id d) := by
  have hdemands : Phase.Demands c.endpoint t (some d.phase) := by
    obtain hd | ⟨time, hd⟩ := hd
    · rw [hd]
      exact ⟨hshown, h.balanced, h.idle⟩
    · rw [hd]
      exact ⟨hshown, h.balanced, h.idle⟩
  exact .of_phase [] trivial ⟨h.tells, fun _ => h.active, hdemands⟩ rfl rfl rfl

/-- Without a connection the driver gives up or waits, as the policy says. -/
theorem Down.setback (h : c.Down t) (d : Driver) :
    c.Leads id t (LifeEvent.ofEffects (c.setback id d).1) (c.setback id d).2 := by
  unfold Connection.setback
  dsimp only [publish]
  cases c.policy.delay? d.countSetback with
  | none => exact .after [.published .disconnected] h.published.quit ⟨h.allows, trivial⟩ rfl rfl rfl
  | some ms =>
    exact .after [.published .disconnected]
      (h.published.rest rfl id (d := ⟨.waiting _, _⟩) (.inr ⟨_, rfl⟩)) ⟨h.allows, trivial⟩
      rfl rfl rfl

/-! ### One step for each phase -/

theorem Agrees.attempt (h : c.Agrees t (some .ready)) (d : Driver) :
    c.Leads id t [.published .connecting, .attempted] (c.attempt id d).2 := by
  obtain ⟨hshown, hbalanced, hidle⟩ := h.demands
  have hactive := h.active rfl
  have hpublished : t.Allows (.published .connecting) :=
    ⟨.inr ⟨hactive, hshown ▸ .attempt⟩, nofun⟩
  have hattempted : (t.add (.published .connecting)).Allows .attempted := ⟨hactive, hbalanced, rfl⟩
  have hmore : t.reached < t.attempts + 1 := Nat.lt_succ_of_le h.tells.made
  exact .of_phase [.published .connecting, .attempted] ⟨hpublished, hattempted, trivial⟩
    ⟨⟨rfl, congrArg (· + 1) h.tells.attempts, h.tells.links, Nat.le_of_lt hmore⟩,
      fun _ => hactive, rfl, hbalanced, hidle, hmore⟩ rfl rfl rfl

theorem overruns_endless (h : c.horizon = none) : c.overruns = false := by
  rw [overruns, h]

/-- When the timer can be set, the pipe that is taken up has its session. -/
theorem Agrees.establish {o : ConnectOutcome} (h : c.Agrees t (some (.connecting o)))
    (hlasts : c.overruns = false) :
    c.Leads id t (.reached :: LifeEvent.ofEffects (c.establish id).1) (c.establish id).2 := by
  obtain ⟨hshown, hbalanced, hidle, hmore⟩ := h.demands
  have hactive := h.active rfl
  have hreached : t.Allows .reached := ⟨hactive, hbalanced, hshown, hmore⟩
  have hopened : (t.add .reached).Allows .opened :=
    ⟨hactive, congrArg (· + 1) hbalanced.1.symm, hbalanced.2⟩
  have hpublished : ((t.add .reached).add .opened).Allows (.published .connected) :=
    ⟨.inr ⟨hactive, hshown ▸ .succeed⟩, nofun⟩
  have hbegun : ((t.add .reached).add .opened).InSession :=
    ⟨congrArg (· + 1) hbalanced.1, congrArg (· + 1) hbalanced.2.symm⟩
  have hlinks : (addKeepalive c.endpoint.connect).2.links = t.opened + 1 :=
    (addKeepalive_links _).trans (congrArg (· + 1) h.tells.links)
  have hbusy : (addKeepalive c.endpoint.connect).2.Busy (addKeepalive c.endpoint.connect).1 :=
    addKeepalive_busy nofun (c.endpoint.peer.connect_boundTo _) hidle.timers
  rw [Connection.establish, if_neg (Bool.eq_false_iff.mp hlasts)]
  exact .of_phase [.reached, .opened, .published .connected]
    ⟨hreached, hopened, hpublished, trivial⟩
    ⟨⟨rfl, h.tells.attempts, hlinks, hmore⟩, fun _ => hactive, rfl, hbegun, hbusy⟩ rfl rfl rfl

theorem Agrees.beginClosing {keepalive : Option Nat} (h : c.Agrees t (some (.running keepalive)))
    (d : Driver) (why : DisconnectReason) :
    c.Leads id t [.published .stopping] (c.beginClosing id d keepalive why).2 := by
  obtain ⟨hshown, hbegun, hbusy⟩ := h.demands
  have hactive := h.active rfl
  have hpublished : t.Allows (.published .stopping) := ⟨.inr ⟨hactive, hshown ▸ .close⟩, nofun⟩
  have hlinks := (cancelKeepalive_links c.endpoint keepalive).trans h.tells.links
  exact .of_phase [.published .stopping] ⟨hpublished, trivial⟩
    ⟨⟨rfl, h.tells.attempts, hlinks, h.tells.made⟩, fun _ => hactive, rfl, hbegun,
      cancelKeepalive_busy hbusy⟩ rfl rfl rfl

/-- Whatever the driver breaks off, nothing is left open. -/
theorem Agrees.heeds (h : c.Agrees t (some d.phase)) {act : Effects × Connection σ}
    (hact : c.Heeds id d act) : c.Leads id t (LifeEvent.ofEffects act.1) act.2 := by
  cases hact with
  | rests phase => exact (h.down phase).quit
  | connecting o phase =>
    rw [phase] at h
    exact h.down_of_connecting.quit
  | running keepalive phase =>
    rw [phase] at h
    exact h.beginClosing d .stopped

variable [ValueTree σ]

theorem Agrees.close {why : DisconnectReason} (h : c.Agrees t (some (.closing why)))
    (d : Driver) :
    c.Leads id t (LifeEvent.ofEffects (c.close id d why).1) (c.close id d why).2 := by
  obtain ⟨hshown, hbegun, hbusy⟩ := h.demands
  have hactive := h.active rfl
  have hdown : { c with endpoint := c.endpoint.disconnect.2 }.Down (t.add .ended) :=
    ⟨{ h.tells with }, hactive, .inr (hshown ▸ .finish), ⟨hbegun.1, hbegun.2.symm⟩,
      hbusy.disconnect⟩
  have hallowed : t.Allowed [.ended] := ⟨⟨hactive, hbegun, hshown⟩, trivial⟩
  unfold Connection.close
  dsimp only
  -- What the endpoint sends is no event, so the end of the session is all that is seen before the
  -- driver goes on.
  rw [LifeEvent.ofEffects_append, LifeEvent.ofEffects_endpoint, List.nil_append]
  split
  · exact .after [.ended] hdown.quit hallowed rfl rfl rfl
  · exact .after [.ended] (hdown.setback d) hallowed rfl rfl rfl

/-! ### All steps -/

/-- That a pipe is taken up is seen before what the driver does with it. -/
theorem Agrees.goesOn (h : c.Agrees t (some d.phase))
    (hlasts : d.phase = .connecting .ok → c.overruns = false) {act : Effects × Connection σ}
    (hact : c.GoesOn id d act) :
    c.Leads id t ((if d.phase = .connecting .ok then [.reached] else []) ++
      LifeEvent.ofEffects act.1) act.2 := by
  cases hact with
  | attempts phase =>
    rw [phase] at h ⊢
    exact h.attempt d
  | succeeds phase =>
    rw [phase] at h
    rw [if_pos phase]
    exact h.establish (hlasts phase)
  | fails phase =>
    rw [phase] at h ⊢
    exact h.down_of_connecting.setback d
  | closes keepalive why phase =>
    rw [phase] at h ⊢
    exact h.beginClosing d why
  | ends why phase =>
    rw [phase] at h ⊢
    exact h.close d
  | wakes time phase =>
    rw [phase] at h ⊢
    exact (h.down (.inr ⟨time, rfl⟩)).rest h.demands.1 id (.inl rfl)

/-- Whatever a driver does next, and whichever of two things that have happened it looks at
first. -/
theorem Agrees.step? (h : c.Agrees t (c.phaseOf? id)) {stopFirst : Bool}
    (hlasts : c.takesUp id stopFirst = true → c.overruns = false) {act : Effects × Connection σ}
    (hact : c.step? id stopFirst = some act) :
    c.Leads id t (c.seen id stopFirst act.1) act.2 := by
  obtain ⟨d, hd, ⟨-, hheeds, htakes⟩ | ⟨hgoes, htakes⟩⟩ := step?_cases hact
  · rw [phaseOf?, hd] at h
    rw [seen, htakes]
    exact h.heeds hheeds
  · rw [phaseOf?, hd] at h
    rw [htakes] at hlasts
    simp only [seen, htakes, decide_eq_true_eq] at hlasts ⊢
    exact h.goesOn hlasts hgoes

end Connection
end PeerLink
