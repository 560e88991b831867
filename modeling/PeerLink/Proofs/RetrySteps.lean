import PeerLink.Proofs.Retries
import Mathlib.Data.List.Induction

/-! # Steps of a driver that tries again

* `Backoff.delayAfter`, `Backoff.delay?_counted`: what a policy says to a count that has an end.
* `Driver.Goes`: what a step makes of a driver that nobody stops.
* `Connection.goOn?_goes`: each step of such a driver is one of these.
* `Connection.step?_leaves`: what steps of other drivers do not touch.
-/

namespace PeerLink
set_option autoImplicit false

open RetryNote

/-! ## Delays -/

namespace RetryNote

theorem setbacks_snoc (ns : List RetryNote) (n : RetryNote) :
    setbacks (ns ++ [n]) = n.count (setbacks ns) := List.foldl_append

theorem setbacks_mono {ns : List RetryNote} (h : .connected ∉ ns) (before : List RetryNote) :
    setbacks before ≤ setbacks (before ++ ns) := by
  induction ns using List.reverseRecOn with
  | nil => exact Nat.le_of_eq (congrArg setbacks (List.append_nil before).symm)
  | append_singleton ns n ih =>
    rw [← List.append_assoc, setbacks_snoc]
    refine Nat.le_trans (ih fun hmem => h (List.mem_append_left _ hmem)) ?_
    cases n with
    | connected => exact absurd (List.mem_append_right ns (List.mem_singleton_self _)) h
    | failed | dropped => exact Nat.le_succ _
    | died | wentOn => exact Nat.le_refl _

theorem setbacks_eq_failures {ns : List RetryNote} (hreached : .connected ∉ ns)
    (h : ∀ n ∈ ns, n.setback?.isSome = true → n.isFailure = true) :
    setbacks ns = ns.countP isFailure := by
  induction ns using List.reverseRecOn with
  | nil => rfl
  | append_singleton ns n ih =>
    obtain ⟨hns, hn⟩ := List.forall_mem_append.mp h
    have hn := List.forall_mem_singleton.mp hn
    have hsame := ih (fun hmem => hreached (List.mem_append_left _ hmem)) hns
    rw [setbacks_snoc, List.countP_append, hsame]
    cases n with
    | connected => exact absurd (List.mem_append_right ns (List.mem_singleton_self _)) hreached
    | dropped => exact nomatch hn rfl
    | failed | died | wentOn => rfl

theorem count_of_setback? {n : RetryNote} {k : Nat} (h : n.setback?.isSome = true) :
    n.count k = k + 1 := by
  cases n with
  | failed | dropped => rfl
  | connected | died | wentOn => cases h

end RetryNote

namespace Backoff

/-- The delay when so many setbacks have gone before. -/
def delayAfter (b : Backoff) (setbacks : Nat) : Nat :=
  min (b.initial * 2 ^ min setbacks 31) b.limit

theorem delayAfter_mono (b : Backoff) {k k' : Nat} (h : k ≤ k') :
    b.delayAfter k ≤ b.delayAfter k' := by
  have hpower : 2 ^ min k 31 ≤ 2 ^ min k' 31 := Nat.pow_le_pow_right (by decide) (by omega)
  have hproduct := Nat.mul_le_mul_left b.initial hpower
  unfold delayAfter
  omega

theorem delayAfter_le (b : Backoff) (k : Nat) : b.delayAfter k ≤ b.limit := Nat.min_le_right _ _

theorem delayAfter_zero (b : Backoff) : b.delayAfter 0 = b.initial := by
  rw [delayAfter, Nat.zero_min, Nat.pow_zero, Nat.mul_one]
  exact Nat.min_eq_left (Nat.le_max_right b.max b.initial)

/-- So many setbacks that there is nothing to give up for yet. -/
def Bears (b : Backoff) (setbacks : Nat) : Prop :=
  0 < b.maxAttempts → b.maxAttempts < Driver.maxSetbacks → setbacks ≤ b.maxAttempts

variable {b : Backoff} {k : Nat}

/-- What the policy says to the number that the driver has counted. -/
theorem delay?_counted (h : b.Bears k) : b.delay? (min (k + 1) Driver.maxSetbacks) =
    if 0 < b.maxAttempts ∧ b.maxAttempts < Driver.maxSetbacks ∧ k = b.maxAttempts then none
    else some (b.delayAfter k) := by
  have hmost : Driver.maxSetbacks = 2 ^ 32 - 1 := rfl
  have hdoublings : doublings (min (k + 1) Driver.maxSetbacks) = min k 31 := by
    rw [doublings, maxDoublings]
    omega
  unfold delay?
  rw [hdoublings]
  refine if_congr ?_ rfl rfl
  unfold Bears at h
  omega

theorem Bears.more (h : b.Bears k) {ms : Nat}
    (hms : b.delay? (min (k + 1) Driver.maxSetbacks) = some ms) : b.Bears (k + 1) := by
  intro hpos hless
  have hle := h hpos hless
  rw [delay?_counted h] at hms
  split_ifs at hms with hcond
  omega

/-- A driver may try without end, or more often than it can count. -/
def Endless (b : Backoff) : Prop := b.maxAttempts = 0 ∨ Driver.maxSetbacks ≤ b.maxAttempts

theorem Endless.delay? (h : b.Endless) (k : Nat) :
    b.delay? (min (k + 1) Driver.maxSetbacks) = some (b.delayAfter k) := by
  have hcond : ¬ (0 < b.maxAttempts ∧ b.maxAttempts < Driver.maxSetbacks) := by
    unfold Endless at h
    omega
  rw [delay?_counted fun hpos hless => absurd ⟨hpos, hless⟩ hcond, if_neg]
  exact fun hall => hcond ⟨hall.1, hall.2.1⟩

end Backoff

/-! ## Steps of a driver -/

/-- The driver after a setback: it waits, or it is done. -/
def Backoff.next? (b : Backoff) (time setbacks : Nat) : Option Driver :=
  (b.delay? setbacks).map fun ms => { phase := .waiting (time + ms), setbacks }

namespace Driver

/-- What is noted of a step of a driver that nobody stops, and what becomes of it. -/
inductive Goes (b : Backoff) (horizon : Option Nat) (d : Driver) : RetryNote → Option Driver → Prop
  | attempts (o : ConnectOutcome) (phase : d.phase = .ready) :
      Goes b horizon d .wentOn (some { d with phase := .connecting o })
  | opens (keepalive : Option Nat) (phase : d.phase = .connecting .ok) :
      Goes b horizon d .connected (some { phase := .running keepalive })
  | dies (phase : d.phase = .connecting .ok) (ends : horizon ≠ none) : Goes b horizon d .died none
  | fails (time : Nat) (phase : d.phase = .connecting .refuse) :
      Goes b horizon d (.failed time (b.delay? d.countSetback)) (b.next? time d.countSetback)
  | closes (keepalive : Option Nat) (why : DisconnectReason) (phase : d.phase = .running keepalive)
      (free : why ≠ .stopped) : Goes b horizon d .wentOn (some { d with phase := .closing why })
  | drops (time : Nat) (why : DisconnectReason) (phase : d.phase = .closing why) :
      Goes b horizon d (.dropped time (b.delay? d.countSetback)) (b.next? time d.countSetback)
  | wakes (time : Nat) (phase : d.phase = .waiting time) :
      Goes b horizon d .wentOn (some { d with phase := .ready })

variable {b : Backoff} {horizon : Option Nat} {d : Driver} {n : RetryNote} {next : Option Driver}

theorem countSetback_eq {k : Nat} (hk : d.setbacks = min k maxSetbacks) :
    d.countSetback = min (k + 1) maxSetbacks := by
  rw [countSetback, hk]
  omega

/-- A setback is judged by how many there have been in a row. -/
theorem Goes.judged (h : d.Goes b horizon n next) {time : Nat} {delay? : Option Nat}
    (hn : n.setback? = some (time, delay?)) :
    delay? = b.delay? d.countSetback ∧ next = b.next? time d.countSetback := by
  cases h with
  | attempts | opens | dies | closes | wakes => cases hn
  | fails | drops =>
    cases hn
    exact ⟨rfl, rfl⟩

theorem Goes.isLast_iff (h : d.Goes b horizon n next) : n.IsLast ↔ next = none := by
  cases h with
  | attempts | opens | closes | wakes =>
    exact iff_of_false (by rintro (heq | ⟨_, heq⟩) <;> cases heq) nofun
  | dies => exact iff_of_true (.inl rfl) rfl
  | fails time | drops time =>
    rw [Backoff.next?, Option.map_eq_none_iff]
    refine ⟨?_, fun hnone => .inr ⟨time, congrArg (fun delay? => some (time, delay?)) hnone⟩⟩
    rintro (heq | ⟨_, heq⟩)
    · cases heq
    · exact congrArg Prod.snd (Option.some.inj heq)

theorem Goes.counted (h : d.Goes b horizon n next) {k : Nat} (hk : d.setbacks = min k maxSetbacks)
    {d' : Driver} (hnext : next = some d') : d'.setbacks = min (n.count k) maxSetbacks := by
  cases h with
  | attempts | closes | wakes =>
    cases hnext
    exact hk
  | opens =>
    cases hnext
    exact (Nat.zero_min _).symm
  | dies => cases hnext
  | fails | drops =>
    obtain ⟨ms, -, rfl⟩ := Option.map_eq_some_iff.mp hnext
    exact countSetback_eq hk

/-- A driver goes on only while there is nothing to give up for. -/
theorem Goes.bears (h : d.Goes b horizon n next) {k : Nat} (hk : d.setbacks = min k maxSetbacks)
    (hbears : b.Bears k) {d' : Driver} (hnext : next = some d') : b.Bears (n.count k) := by
  cases h with
  | attempts | closes | wakes => exact hbears
  | opens => exact fun _ _ => Nat.zero_le _
  | dies => cases hnext
  | fails | drops =>
    obtain ⟨ms, hms, -⟩ := Option.map_eq_some_iff.mp hnext
    rw [countSetback_eq hk] at hms
    exact hbears.more hms

theorem Goes.free (h : d.Goes b horizon n next) {d' : Driver} (hnext : next = some d') :
    d'.phase ≠ .closing .stopped := by
  cases h with
  | attempts | opens | wakes =>
    cases hnext
    exact nofun
  | closes keepalive why phase free =>
    cases hnext
    exact fun heq => free (Phase.closing.inj heq)
  | dies => cases hnext
  | fails | drops =>
    obtain ⟨ms, -, rfl⟩ := Option.map_eq_some_iff.mp hnext
    exact nofun

/-- Without a success there is no session. -/
theorem Goes.unreached (h : d.Goes b horizon n next) (hout : ¬ d.phase.InSession)
    (hn : n ≠ .connected) : (n.setback?.isSome = true → n.isFailure = true) ∧
      ∀ d', next = some d' → ¬ d'.phase.InSession := by
  cases h with
  | attempts | wakes =>
    refine ⟨nofun, fun d' hnext => ?_⟩
    cases hnext
    exact False.elim
  | opens => exact absurd rfl hn
  | dies => exact ⟨nofun, nofun⟩
  | closes keepalive why phase => exact absurd (phase ▸ trivial) hout
  | drops time why phase => exact absurd (phase ▸ trivial) hout
  | fails =>
    refine ⟨fun _ => rfl, fun d' hnext => ?_⟩
    obtain ⟨ms, -, rfl⟩ := Option.map_eq_some_iff.mp hnext
    exact False.elim

theorem Goes.endless (h : d.Goes b horizon n next) (hhorizon : horizon = none) : n ≠ .died := by
  rintro rfl
  cases h with
  | dies phase ends => exact ends hhorizon

end Driver

namespace Connection
variable {σ : Type}

/-- What no step of any driver changes while nobody stops one. -/
structure Leaves (c c' : Connection σ) : Prop where
  policy : c'.policy = c.policy
  horizon : c'.horizon = c.horizon
  calm : c.endpoint.reason? ≠ some .stopped → c'.endpoint.reason? ≠ some .stopped

variable {b : Backoff} {c : Connection σ} {id : Nat} {d : Driver}

theorem addKeepalive_reason? (e : Endpoint σ) : (addKeepalive e).2.reason? = e.reason? := by
  unfold addKeepalive
  split <;> rfl

theorem cancelKeepalive_reason? (e : Endpoint σ) (keepalive : Option Nat) :
    (cancelKeepalive e keepalive).reason? = e.reason? := by
  cases keepalive <;> rfl

theorem setback_leaves (c : Connection σ) (id : Nat) (d : Driver) :
    c.Leaves (c.setback id d).2 := by
  unfold setback
  dsimp only [publish]
  cases c.policy.delay? d.countSetback with
  | none => exact ⟨rfl, rfl, fun h => h⟩
  | some ms => exact ⟨rfl, rfl, fun h => h⟩

theorem beginClosing_leaves (c : Connection σ) (id : Nat) (d : Driver) (keepalive : Option Nat)
    (why : DisconnectReason) : c.Leaves (c.beginClosing id d keepalive why).2 := by
  refine ⟨rfl, rfl, fun h => ?_⟩
  change (cancelKeepalive c.endpoint keepalive).reason? ≠ some .stopped
  rwa [cancelKeepalive_reason?]

theorem setDriver_get? (c : Connection σ) (id : Nat) (d : Driver) :
    (c.setDriver id d).drivers.get? id = some d := by
  rw [setDriver, Table.get?_insert, if_pos rfl]

theorem erase_get? (c : Connection σ) (id : Nat) : (c.drivers.erase id).get? id = none := by
  rw [Table.get?_erase, if_pos rfl]

/-- Without a connection a driver waits as its policy says, or it is done. -/
theorem setback_next (id : Nat) (d : Driver) (hpolicy : c.policy = .backoff b) :
    (c.setback id d).2.drivers.get? id = b.next? c.endpoint.clock d.countSetback ∧
      (c.setback id d).2.endpoint = c.endpoint := by
  unfold setback Backoff.next?
  dsimp only [publish]
  rw [hpolicy, ReconnectPolicy.delay?]
  cases b.delay? d.countSetback with
  | none => exact ⟨erase_get? c id, rfl⟩
  | some ms => exact ⟨setDriver_get? _ id _, rfl⟩

theorem delayFrom?_next? (b : Backoff) (time setbacks : Nat) :
    delayFrom? time ((b.next? time setbacks).map Driver.phase) = b.delay? setbacks := by
  unfold Backoff.next?
  cases b.delay? setbacks with
  | none => rfl
  | some ms => exact congrArg some (Nat.add_sub_cancel_left time ms)

theorem establish_leaves (c : Connection σ) (id : Nat) : c.Leaves (c.establish id).2 := by
  unfold establish
  split
  · exact ⟨rfl, rfl, fun _ => nofun⟩
  · refine ⟨rfl, rfl, fun _ => ?_⟩
    change (addKeepalive c.endpoint.connect).2.reason? ≠ some .stopped
    rw [addKeepalive_reason?]
    exact nofun

variable [ValueTree σ]

theorem close_leaves (c : Connection σ) (id : Nat) (d : Driver) (why : DisconnectReason) :
    c.Leaves (c.close id d why).2 := by
  have hover : c.endpoint.disconnect.2.reason? = none := by
    rw [Endpoint.reason?, c.endpoint.disconnect_unbound.1]
    rfl
  have hafter : c.Leaves { c with endpoint := c.endpoint.disconnect.2 } := by
    refine ⟨rfl, rfl, fun _ => ?_⟩
    rw [hover]
    exact nofun
  unfold close
  dsimp only
  split
  · exact ⟨rfl, rfl, hafter.calm⟩
  · have hset := setback_leaves { c with endpoint := c.endpoint.disconnect.2 } id d
    exact ⟨hset.policy, hset.horizon, hset.calm ∘ hafter.calm⟩

theorem goOn?_leaves {act : Effects × Connection σ} (hact : c.goOn? id d = some act) :
    c.Leaves act.2 := by
  cases goOn?_cases hact with
  | attempts | wakes => exact ⟨rfl, rfl, fun h => h⟩
  | succeeds => exact establish_leaves c id
  | fails => exact setback_leaves c id d
  | closes keepalive why => exact beginClosing_leaves c id d keepalive why
  | ends why => exact close_leaves c id d why

/-- While nobody wishes to stop, a driver looks at what has happened. -/
theorem step?_eq_goOn? (hwish : c.stopWished = false) (hd : c.drivers.get? id = some d)
    (stopFirst : Bool) : c.step? id stopFirst = c.goOn? id d := by
  have hheed : c.heedStop? id d = none := by
    rw [heedStop?, hwish]
    rfl
  rw [step?, hd, Option.bind_some, hheed]
  cases stopFirst with
  | true => exact Option.none_or
  | false => exact Option.or_none

theorem step?_leaves (hwish : c.stopWished = false) {stopFirst : Bool}
    {act : Effects × Connection σ} (hact : c.step? id stopFirst = some act) : c.Leaves act.2 := by
  obtain ⟨d, hd, -⟩ := Option.bind_eq_some_iff.mp hact
  rw [step?_eq_goOn? hwish hd] at hact
  exact goOn?_leaves hact

theorem close_next (id : Nat) (d : Driver) {why : DisconnectReason}
    (hpolicy : c.policy = .backoff b) (hfree : why ≠ .stopped) :
    (c.close id d why).2.drivers.get? id =
      b.next? (c.close id d why).2.endpoint.clock d.countSetback := by
  obtain ⟨hnext, hendpoint⟩ :=
    setback_next (c := { c with endpoint := c.endpoint.disconnect.2 }) id d hpolicy
  unfold close
  dsimp only
  rw [if_neg hfree, hendpoint]
  exact hnext

/-- Each step of a driver that nobody stops. -/
theorem goOn?_goes (hpolicy : c.policy = .backoff b)
    (hcalm : c.endpoint.reason? ≠ some .stopped) (hfree : d.phase ≠ .closing .stopped)
    {act : Effects × Connection σ} (hact : c.goOn? id d = some act) :
    d.Goes b c.horizon (.ofStep act.2.endpoint.clock d.phase (act.2.phaseOf? id))
      (act.2.drivers.get? id) := by
  cases goOn?_cases hact with
  | attempts phase =>
    rw [show (c.attempt id d).2.drivers.get? id = _ from setDriver_get? _ id _, phase]
    exact .attempts _ phase
  | succeeds phase =>
    rw [phase]
    unfold establish
    split
    · rename_i hover
      have hgone : (c.collapse id).2.drivers.get? id = none := erase_get? c id
      rw [phaseOf?, hgone]
      refine .dies phase fun hnone => ?_
      exact Bool.noConfusion (hover.symm.trans (overruns_endless hnone))
    · rw [setDriver_phase, setDriver_get?]
      exact .opens _ phase
  | fails phase =>
    obtain ⟨hnext, hendpoint⟩ := setback_next id d hpolicy
    rw [phase, phaseOf?, hnext, hendpoint, ofStep, delayFrom?_next?]
    exact .fails _ phase
  | closes keepalive why phase reason =>
    rw [show (c.beginClosing id d keepalive why).2.drivers.get? id = _ from setDriver_get? _ id _,
      phase]
    refine .closes keepalive why phase ?_
    rintro rfl
    exact hcalm reason
  | ends why phase =>
    have hopen : why ≠ .stopped := by
      rintro rfl
      exact hfree phase
    have hnext := close_next id d hpolicy hopen
    rw [phase, phaseOf?, hnext, ofStep, delayFrom?_next?]
    exact .drops _ why phase
  | wakes time phase =>
    rw [setDriver_get?, phase]
    exact .wakes time phase

end Connection

end PeerLink
