import PeerLink.Proofs.LifecycleSteps
import PeerLink.Proofs.Overlap

/-! # Strides of a driver

* `Phase.Stride`: the steps that a driver can make from a phase, and what is seen of them.
* `Phase.effort`: how many steps are left to a driver when it is to stop.
* `Connection.Does`: what a step of a driver leaves of a connection with many drivers.
* `Connection.step?_does`: each step of a driver is a stride.
-/

namespace PeerLink
set_option autoImplicit false

namespace Phase

/-- A session has begun, and its driver has not ended it. -/
def InSession : Phase → Prop
  | .running _ | .closing _ => True
  | .ready | .connecting _ | .waiting _ => False

theorem Rests.free {phase : Phase} (h : phase.Rests) : ¬ phase.InSession := by
  obtain rfl | ⟨time, rfl⟩ := h
  · exact False.elim
  · exact False.elim

/-- What a driver does without a connection: it gives up, or it waits for its next attempt. -/
inductive Falls : List LifeEvent → Option Phase → Prop
  | quits : Falls [.published .disconnected] none
  | givesUp : Falls [.published .disconnected, .published .disconnected] none
  | waits (time : Nat) : Falls [.published .disconnected] (some (.waiting time))

inductive Stride (wish : Bool) : Phase → List LifeEvent → Option Phase → Prop
  | attempts (o : ConnectOutcome) (goes : wish = false) :
      Stride wish .ready [.published .connecting, .attempted] (some (.connecting o))
  | opens (keepalive : Option Nat) :
      Stride wish (.connecting .ok) [.opened, .published .connected]
        (some (.running keepalive))
  | dies : Stride wish (.connecting .ok) [.opened, .published .connected] none
  | closes (keepalive : Option Nat) (why : DisconnectReason) :
      Stride wish (.running keepalive) [.published .stopping] (some (.closing why))
  | ends (why : DisconnectReason) {es : List LifeEvent} {next : Option Phase}
      (falls : Falls es next) : Stride wish (.closing why) (.ended :: es) next
  | fails {es : List LifeEvent} {next : Option Phase} (falls : Falls es next) :
      Stride wish (.connecting .refuse) es next
  | quits {phase : Phase} (heeds : wish = true) (free : ¬ phase.InSession) :
      Stride wish phase [.published .disconnected] none
  | wakes (time : Nat) : Stride wish (.waiting time) [] (some .ready)

/-- How many steps are left to a driver at most when it is to stop. -/
def effort : Phase → Nat
  | .connecting _ => 5
  | .running _ => 4
  | .closing _ => 3
  | .waiting _ => 2
  | .ready => 1

/-- How many sessions are left to it. -/
def chances : Phase → Nat
  | .connecting _ => 1
  | .running _ | .closing _ | .waiting _ | .ready => 0

theorem effort_le (phase : Phase) : phase.effort ≤ 5 := by
  cases phase <;> simp [effort]

theorem effort_pos (phase : Phase) : 0 < phase.effort := by
  cases phase <;> simp [effort]

def effortOf (phase? : Option Phase) : Nat := phase?.elim 0 effort

def chancesOf (phase? : Option Phase) : Nat := phase?.elim 0 chances

theorem effortOf_le (phase? : Option Phase) : effortOf phase? ≤ 5 := by
  cases phase? with
  | none => exact Nat.zero_le 5
  | some phase => exact phase.effort_le

variable {phase : Phase} {es : List LifeEvent} {next : Option Phase} {wish : Bool}

theorem Falls.effort_le (h : Falls es next) : effortOf next ≤ 2 := by
  cases h <;> simp [effortOf, effort]

theorem Falls.no_chance (h : Falls es next) : chancesOf next = 0 := by
  cases h <;> rfl

theorem Falls.not_opened (h : Falls es next) : .opened ∉ es := by
  cases h <;> decide

theorem Falls.not_attempted (h : Falls es next) : .attempted ∉ es := by
  cases h <;> decide

theorem Falls.not_opened_after (h : Falls es next) : .opened ∉ LifeEvent.ended :: es :=
  List.not_mem_cons_of_ne_of_not_mem (by decide) h.not_opened

theorem Falls.not_attempted_after (h : Falls es next) : .attempted ∉ LifeEvent.ended :: es :=
  List.not_mem_cons_of_ne_of_not_mem (by decide) h.not_attempted

/-- While somebody wishes to stop, each step leaves less to do. -/
theorem Stride.effort_lt (h : phase.Stride true es next) : effortOf next < phase.effort := by
  cases h with
  | attempts o goes => cases goes
  | opens | closes | wakes => exact Nat.lt_succ_self _
  | dies => exact Nat.zero_lt_succ _
  | ends why falls => exact Nat.lt_succ_of_le falls.effort_le
  | fails falls => exact Nat.lt_of_le_of_lt falls.effort_le (by decide)
  | quits => exact phase.effort_pos

/-- While somebody wishes to stop, a session begins only on a pipe that the driver waits for. -/
theorem Stride.chances_le (h : phase.Stride true es next) :
    (decide (.opened ∈ es)).toNat + chancesOf next ≤ phase.chances := by
  cases h with
  | attempts o goes => cases goes
  | opens | dies => exact Nat.le_refl 1
  | closes | quits | wakes => exact Nat.zero_le _
  | ends why falls =>
    rw [decide_eq_false falls.not_opened_after, falls.no_chance]
    exact Nat.le_refl 0
  | fails falls =>
    rw [decide_eq_false falls.not_opened, falls.no_chance]
    exact Nat.zero_le _

theorem Stride.chances_eq (h : phase.Stride wish es next) :
    chancesOf next = (decide (.attempted ∈ es)).toNat := by
  cases h with
  | attempts | opens | dies | closes | quits | wakes => rfl
  | ends why falls =>
    rw [decide_eq_false falls.not_attempted_after, falls.no_chance]
    rfl
  | fails falls =>
    rw [decide_eq_false falls.not_attempted, falls.no_chance]
    rfl

/-- A driver leaves its session only by ending it. -/
theorem Stride.stays (h : phase.Stride wish es next) (hin : phase.InSession) (hend : .ended ∉ es) :
    ∃ phase', next = some phase' ∧ phase'.InSession ∧ .published .disconnected ∉ es := by
  cases h with
  | attempts | opens | dies | fails | wakes => exact hin.elim
  | closes keepalive why => exact ⟨_, rfl, trivial, by decide⟩
  | ends => exact absurd List.mem_cons_self hend
  | quits heeds free => exact absurd hin free

/-- When a session has begun its driver is in it, or is done. -/
theorem Stride.enters (h : phase.Stride wish es next) (hopen : .opened ∈ es) :
    .published .disconnected ∉ es ∧
      (next = none ∨ ∃ phase', next = some phase' ∧ phase'.InSession) := by
  cases h with
  | opens keepalive => exact ⟨by decide, .inr ⟨_, rfl, trivial⟩⟩
  | dies => exact ⟨by decide, .inl rfl⟩
  | attempts | closes | quits | wakes => exact absurd hopen (by decide)
  | ends why falls => exact absurd hopen falls.not_opened_after
  | fails falls => exact absurd hopen falls.not_opened

end Phase

/-! ## Steps on a connection -/

namespace Connection
variable {σ : Type}

/-- Whether a session runs after events, if one ran before or none did. -/
def boundAfter (es : List LifeEvent) (bound : Bool) : Bool :=
  if .opened ∈ es then true else if .ended ∈ es then false else bound

/-- A driver is in another phase, and nothing else has changed for other drivers and for calls. -/
structure Does (c : Connection σ) (id : Nat) (es : List LifeEvent) (next : Option Phase)
    (act : Effects × Connection σ) : Prop where
  events : LifeEvent.ofEffects act.1 = es
  phase : act.2.phaseOf? id = next
  others : ∀ other, other ≠ id → act.2.drivers.get? other = c.drivers.get? other
  owned : act.2.owned = c.owned
  wish : act.2.stopWished = c.stopWished
  nextDriver : act.2.nextDriver = c.nextDriver
  bound : act.2.endpoint.session.isSome = boundAfter es c.endpoint.session.isSome

variable {c : Connection σ} {id : Nat} {d : Driver}

theorem Does.phaseOf?_eq {es : List LifeEvent} {next : Option Phase}
    {act : Effects × Connection σ} (h : c.Does id es next act) (other : Nat) :
    act.2.phaseOf? other = if other = id then next else c.phaseOf? other := by
  split
  · rename_i hsame
    rw [hsame, h.phase]
  · rename_i hother
    rw [phaseOf?, h.others other hother]
    rfl

theorem quit_does (c : Connection σ) (id : Nat) :
    c.Does id [.published .disconnected] none (c.quit id) := by
  refine ⟨rfl, ?_, ?_, rfl, rfl, rfl, rfl⟩
  · exact congrArg (Option.map Driver.phase) ((Table.get?_erase ..).trans (if_pos rfl))
  · intro other hother
    exact (Table.get?_erase ..).trans (if_neg hother)

theorem setDriver_does (c c' : Connection σ) (id : Nat) (d : Driver) (es : Effects)
    (howned : c'.owned = c.owned) (hdrivers : c'.drivers = c.drivers)
    (hwish : c'.stopWished = c.stopWished) (hnext : c'.nextDriver = c.nextDriver)
    (hbound : c'.endpoint.session.isSome =
      boundAfter (LifeEvent.ofEffects es) c.endpoint.session.isSome) :
    c.Does id (LifeEvent.ofEffects es) (some d.phase) (es, c'.setDriver id d) := by
  refine ⟨rfl, setDriver_phase c' id d, ?_, howned, hwish, hnext, hbound⟩
  intro other hother
  rw [setDriver_others _ _ _ _ hother, hdrivers]

theorem setback_does (c : Connection σ) (id : Nat) (d : Driver) :
    ∃ es next, Phase.Falls es next ∧ c.Does id es next (c.setback id d) := by
  unfold Connection.setback
  dsimp only [publish]
  cases c.policy.delay? d.countSetback with
  | none =>
    have hquit := quit_does { c with state := .disconnected } id
    exact ⟨_, _, .givesUp, rfl, hquit.phase, hquit.others, rfl, rfl, rfl, rfl⟩
  | some ms =>
    have hwaits := setDriver_does c { c with state := .disconnected } id
      ⟨.waiting (c.endpoint.clock + ms), d.countSetback⟩
      [.published .disconnected, .asked d.countSetback (some ms)] rfl rfl rfl rfl rfl
    exact ⟨_, _, .waits _, hwaits⟩

theorem attempt_does (c : Connection σ) (id : Nat) (d : Driver) :
    c.Does id [.published .connecting, .attempted] (some (.connecting c.connector.connect.1))
      (c.attempt id d) :=
  setDriver_does c { c with state := .connecting, connector := c.connector.connect.2 } id
    { d with phase := .connecting c.connector.connect.1 } [.published .connecting, .attempted]
    rfl rfl rfl rfl rfl

/-- Where the timer can be set the driver goes on, otherwise it dies. -/
theorem establish_does (c : Connection σ) (id : Nat) (wish : Bool) :
    ∃ next, Phase.Stride wish (.connecting .ok) [.opened, .published .connected] next ∧
      c.Does id [.opened, .published .connected] next (c.establish id) := by
  unfold Connection.establish
  split
  · refine ⟨none, .dies, rfl, ?_, ?_, rfl, rfl, rfl, rfl⟩
    · exact congrArg (Option.map Driver.phase) ((Table.get?_erase ..).trans (if_pos rfl))
    · intro other hother
      exact (Table.get?_erase ..).trans (if_neg hother)
  · have hsession : (addKeepalive c.endpoint.connect).2.session = c.endpoint.connect.session := by
      unfold addKeepalive
      split <;> rfl
    have hset := setDriver_does c
      { c with endpoint := (addKeepalive c.endpoint.connect).2, state := .connected } id
      { phase := .running (addKeepalive c.endpoint.connect).1 }
      [.opened, .published .connected] rfl rfl rfl rfl (congrArg Option.isSome hsession)
    exact ⟨_, .opens _, hset⟩

theorem beginClosing_does (c : Connection σ) (id : Nat) (d : Driver) (keepalive : Option Nat)
    (why : DisconnectReason) :
    c.Does id [.published .stopping] (some (.closing why)) (c.beginClosing id d keepalive why) := by
  have hsession : (cancelKeepalive c.endpoint keepalive).session = c.endpoint.session := by
    cases keepalive <;> rfl
  exact setDriver_does c
    { c with endpoint := cancelKeepalive c.endpoint keepalive, state := .stopping } id
    { d with phase := .closing why } [.published .stopping] rfl rfl rfl rfl
    (congrArg Option.isSome hsession)

theorem heeds_does (hwish : c.stopWished = true) {act : Effects × Connection σ}
    (hact : c.Heeds id d act) :
    ∃ es next, d.phase.Stride c.stopWished es next ∧ c.Does id es next act := by
  cases hact with
  | rests phase => exact ⟨_, _, .quits hwish phase.free, quit_does c id⟩
  | connecting o phase =>
    rw [phase]
    exact ⟨_, _, .quits hwish False.elim, quit_does c id⟩
  | running keepalive phase =>
    rw [phase]
    exact ⟨_, _, .closes keepalive .stopped, beginClosing_does c _ d keepalive .stopped⟩

variable [ValueTree σ]

theorem close_does (c : Connection σ) (id : Nat) (d : Driver) (why : DisconnectReason) :
    ∃ es next, Phase.Falls es next ∧ c.Does id (.ended :: es) next (c.close id d why) := by
  have hevents : LifeEvent.ofEffects (ofEndpoint c.endpoint.disconnect.1 ++ [.ended]) =
      [LifeEvent.ended] := by
    rw [LifeEvent.ofEffects_append, LifeEvent.ofEffects_endpoint]
    rfl
  have hdown : c.endpoint.disconnect.2.session = none := c.endpoint.disconnect_unbound.1
  -- What follows happens on a connection whose session is over.
  have hafter : ∀ {act : Effects × Connection σ} {es : List LifeEvent} {next : Option Phase},
      Phase.Falls es next → { c with endpoint := c.endpoint.disconnect.2 }.Does id es next act →
      c.Does id (.ended :: es) next
        (ofEndpoint c.endpoint.disconnect.1 ++ .ended :: act.1, act.2) := by
    intro act es next hfalls h
    have hbound : act.2.endpoint.session.isSome = false := by
      rw [h.bound, boundAfter, if_neg hfalls.not_opened, hdown]
      split <;> rfl
    refine ⟨?_, h.phase, h.others, h.owned, h.wish, h.nextDriver, ?_⟩
    · rw [List.append_cons, LifeEvent.ofEffects_append, hevents, h.events]
      rfl
    · rw [hbound, boundAfter, if_neg hfalls.not_opened_after, if_pos List.mem_cons_self]
  unfold Connection.close
  dsimp only
  split
  · exact ⟨_, _, .quits, hafter .quits (quit_does _ id)⟩
  · obtain ⟨es, next, hfalls, hdoes⟩ :=
      setback_does { c with endpoint := c.endpoint.disconnect.2 } id d
    exact ⟨es, next, hfalls, hafter hfalls hdoes⟩

theorem goesOn_does {act : Effects × Connection σ} (hact : c.GoesOn id d act) :
    ∃ es next, d.phase.Stride c.stopWished es next ∧ c.Does id es next act := by
  cases hact with
  | attempts phase goes =>
    rw [phase]
    exact ⟨_, _, .attempts _ goes, attempt_does c id d⟩
  | succeeds phase =>
    rw [phase]
    obtain ⟨next, hstride, hdoes⟩ := establish_does c id c.stopWished
    exact ⟨_, next, hstride, hdoes⟩
  | fails phase =>
    rw [phase]
    obtain ⟨es, next, hfalls, hdoes⟩ := setback_does c id d
    exact ⟨es, next, .fails hfalls, hdoes⟩
  | closes keepalive why phase =>
    rw [phase]
    exact ⟨_, _, .closes keepalive why, beginClosing_does c id d keepalive why⟩
  | ends why phase =>
    rw [phase]
    obtain ⟨es, next, hfalls, hdoes⟩ := close_does c id d why
    exact ⟨_, next, .ends why hfalls, hdoes⟩
  | wakes time phase =>
    rw [phase]
    have hready := setDriver_does c c id { d with phase := .ready } [] rfl rfl rfl rfl rfl
    exact ⟨_, _, .wakes time, hready⟩

/-- Whatever a driver does next, and whichever of two things that have happened it looks at
first. -/
theorem step?_does {stopFirst : Bool} {act : Effects × Connection σ}
    (hact : c.step? id stopFirst = some act) :
    ∃ phase es next, c.phaseOf? id = some phase ∧ phase.Stride c.stopWished es next ∧
      c.Does id es next act := by
  obtain ⟨d, hd, hcases⟩ := step?_cases hact
  have hphase : c.phaseOf? id = some d.phase := by rw [phaseOf?, hd, Option.map_some]
  obtain ⟨es, next, hstride, hdoes⟩ :=
    hcases.elim (fun h => heeds_does h.1 h.2.1) fun h => goesOn_does h.1
  exact ⟨d.phase, es, next, hphase, hstride, hdoes⟩

/-- While somebody wishes to stop, no driver has to wait for anything. -/
theorem step?_of_wish (hwish : c.stopWished = true) (hlive : c.drivers.contains id = true)
    (stopFirst : Bool) : (c.step? id stopFirst).isSome = true := by
  obtain ⟨d, hd⟩ := Option.isSome_iff_exists.mp hlive
  have hboth : (c.heedStop? id d).isSome = true ∨ (c.goOn? id d).isSome = true := by
    unfold Connection.heedStop? Connection.goOn?
    rw [if_pos hwish]
    cases d.phase with
    | ready | connecting | running | waiting => exact .inl rfl
    | closing => exact .inr rfl
  rw [step?, hd, Option.bind_some]
  cases stopFirst with
  | true => simpa [Option.isSome_or] using hboth
  | false => simpa [Option.isSome_or] using hboth.symm

end Connection
end PeerLink
