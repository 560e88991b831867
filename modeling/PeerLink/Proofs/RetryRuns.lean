import PeerLink.Proofs.RetrySteps

/-! # Runs of a driver that tries again

* `RetryNote.Stands`: the driver is as the notes tell.
* `Retrying.Kept`: what each move keeps.
* `Retrying.ofStart_scheduled`: how long a driver waits, and when it gives up.
* `Retrying.rounds`: attempts that fail one after another, as many as anybody likes.
* `Retrying.doubling_ends`: some of them are waited for less than twice as long as those before, and
  after some more the driver no longer counts.
-/

namespace PeerLink
set_option autoImplicit false

open RetryNote

namespace RetryNote

/-! ## What the notes tell -/

/-- A driver that is not done. -/
structure Stands (b : Backoff) (ns : List RetryNote) (d : Driver) : Prop where
  counted : d.setbacks = min (setbacks ns) Driver.maxSetbacks
  bears : b.Bears (setbacks ns)
  free : d.phase ≠ .closing .stopped
  fresh : .connected ∉ ns → ¬ d.phase.InSession
  rests : ∀ {before : List RetryNote} {n : RetryNote} {time ms : Nat}, ns = before ++ [n] →
    n.setback? = some (time, some ms) → d.phase = .waiting (time + ms)

/-- Notes that a driver may have left. Each setback was judged by the count of those before it,
while there was nothing to give up for. -/
structure Told (b : Backoff) (ns : List RetryNote) : Prop where
  last : Each (fun before _ => ∀ n ∈ before, ¬ n.IsLast) ns
  judged : Each (fun before n => ∀ time delay?, n.setback? = some (time, delay?) →
    b.Bears (setbacks before) ∧
      delay? = b.delay? (min (setbacks before + 1) Driver.maxSetbacks)) ns
  unreached : .connected ∉ ns → ∀ n ∈ ns, n.setback?.isSome = true → n.isFailure = true

variable {b : Backoff} {horizon : Option Nat} {ns : List RetryNote} {n : RetryNote} {d : Driver}
  {next : Option Driver}

theorem Stands.goes (h : Stands b ns d) (hgoes : d.Goes b horizon n next) {d' : Driver}
    (hnext : next = some d') : Stands b (ns ++ [n]) d' where
  counted := by
    rw [setbacks_snoc]
    exact hgoes.counted h.counted hnext
  bears := by
    rw [setbacks_snoc]
    exact hgoes.bears h.counted h.bears hnext
  free := hgoes.free hnext
  fresh := fun hreached => by
    rw [List.mem_append, not_or, List.mem_singleton] at hreached
    exact (hgoes.unreached (h.fresh hreached.1) (Ne.symm hreached.2)).2 d' hnext
  rests := fun {before n' time ms} hsplit hsetback => by
    obtain ⟨-, hlast⟩ := List.append_inj' hsplit rfl
    obtain rfl := List.singleton_inj.mp hlast
    obtain ⟨hdelay, hwaits⟩ := hgoes.judged hsetback
    rw [hnext, Backoff.next?, ← hdelay, Option.map_some, Option.some.injEq] at hwaits
    rw [hwaits]

theorem Told.goes (h : Told b ns) (hstands : Stands b ns d) (hopen : ∀ m ∈ ns, ¬ m.IsLast)
    (hgoes : d.Goes b horizon n next) : Told b (ns ++ [n]) where
  last := h.last.snoc hopen
  judged := h.judged.snoc fun time delay? hsetback => by
    refine ⟨hstands.bears, ?_⟩
    rw [(hgoes.judged hsetback).1, Driver.countSetback_eq hstands.counted]
  unreached := fun hreached => by
    rw [List.mem_append, not_or, List.mem_singleton] at hreached
    refine List.forall_mem_append.mpr ⟨h.unreached hreached.1, List.forall_mem_singleton.mpr ?_⟩
    exact (hgoes.unreached (hstands.fresh hreached.1) (Ne.symm hreached.2)).1

end RetryNote

namespace Retrying
variable {σ : Type} {b : Backoff} {r : Retrying σ}

/-! ## Moves -/

/-- The driver that the connection has is the one that the notes tell of. -/
structure Kept (b : Backoff) (r : Retrying σ) : Prop where
  policy : r.connection.policy = .backoff b
  wish : r.connection.stopWished = false
  calm : r.connection.endpoint.reason? ≠ some .stopped
  told : Told b r.notes
  stands : ∀ d, r.connection.drivers.get? r.driver = some d → Stands b r.notes d
  alive : r.connection.drivers.get? r.driver = none ↔ ∃ n ∈ r.notes, n.IsLast
  endless : r.connection.horizon = none → .died ∉ r.notes

theorem Kept.ofStart {c : Connection σ} (hpolicy : c.policy = .backoff b)
    (hstart : c.start.1 = true) (hcalm : c.endpoint.reason? ≠ some .stopped) :
    (ofStart c).Kept b := by
  have hbegun : c.start.2 = { c with
      stopWished := false, owned := some c.nextDriver, nextDriver := c.nextDriver + 1
      }.setDriver c.nextDriver {} := by
    unfold Connection.start at hstart ⊢
    split at hstart
    · cases hstart
    · rename_i hfree
      rw [if_neg hfree]
  have hdriver : (Retrying.ofStart c).connection.drivers.get? c.nextDriver = some {} := by
    rw [Retrying.ofStart, hbegun]
    exact Connection.setDriver_get? _ _ _
  refine ⟨?_, ?_, ?_, ⟨.nil, .nil, fun _ n hn => absurd hn List.not_mem_nil⟩, fun d hd => ?_, ?_,
    fun _ => List.not_mem_nil⟩
  · rw [Retrying.ofStart, hbegun]
    exact hpolicy
  · rw [Retrying.ofStart, hbegun]
    rfl
  · rw [Retrying.ofStart, hbegun]
    exact hcalm
  · obtain rfl := Option.some.inj (hdriver.symm.trans hd)
    refine ⟨rfl, fun _ _ => Nat.zero_le _, by decide, fun _ => False.elim, fun hsplit => ?_⟩
    exact absurd hsplit (List.append_ne_nil_of_right_ne_nil _ (List.cons_ne_nil _ _)).symm
  · refine iff_of_false (fun hnone => ?_) ?_
    · exact Option.some_ne_none _ (hdriver.symm.trans hnone)
    · rintro ⟨n, hn, -⟩
      exact List.not_mem_nil hn

theorem Kept.foresee (h : r.Kept b) (outcomes : List ConnectOutcome) :
    (r.foresee outcomes).Kept b :=
  ⟨h.policy, h.wish, h.calm, h.told, h.stands, h.alive, h.endless⟩

theorem Kept.touch (h : r.Kept b) (endpoint : Endpoint σ) : (r.touch endpoint).Kept b := by
  unfold Retrying.touch
  split
  · exact h
  · rename_i hcalm
    exact ⟨h.policy, h.wish, hcalm, h.told, h.stands, h.alive, h.endless⟩

/-! ## What is read off the notes -/

theorem Kept.delay_eq (h : r.Kept b) {before later : List RetryNote} {n : RetryNote}
    (hsplit : r.notes = before ++ n :: later) {time ms : Nat}
    (hn : n.setback? = some (time, some ms)) : ms = b.delayAfter (setbacks before) := by
  obtain ⟨hbears, hdelay⟩ := h.told.judged before n later hsplit time _ hn
  rw [Backoff.delay?_counted hbears] at hdelay
  split_ifs at hdelay
  exact Option.some.inj hdelay

theorem Kept.givesUp_iff (h : r.Kept b) {before later : List RetryNote} {n : RetryNote}
    (hsplit : r.notes = before ++ n :: later) (hn : n.setback?.isSome = true) :
    n.GivesUp ↔ 0 < b.maxAttempts ∧ b.maxAttempts < Driver.maxSetbacks ∧
      setbacks before = b.maxAttempts := by
  obtain ⟨⟨time, delay?⟩, hsetback⟩ := Option.isSome_iff_exists.mp hn
  obtain ⟨hbears, hdelay⟩ := h.told.judged before n later hsplit time _ hsetback
  rw [Backoff.delay?_counted hbears] at hdelay
  unfold GivesUp
  rw [hsetback]
  split_ifs at hdelay with hcond
  · exact iff_of_true ⟨time, congrArg (fun delay? => some (time, delay?)) hdelay⟩ hcond
  · refine iff_of_false (fun ⟨_, heq⟩ => ?_) hcond
    rw [hdelay] at heq
    cases heq

theorem Kept.ends (h : r.Kept b) {before later : List RetryNote} {n : RetryNote}
    (hsplit : r.notes = before ++ n :: later) (hn : n.IsLast) : later = [] := by
  cases later with
  | nil => rfl
  | cons m later =>
    have hafter := h.told.last (before ++ [n]) m later (by rw [hsplit, List.append_assoc]; rfl)
    exact absurd hn (hafter n (List.mem_append_right _ (List.mem_singleton_self n)))

theorem Kept.unreached (h : r.Kept b) (hreached : .connected ∉ r.notes) {n : RetryNote}
    (hn : n ∈ r.notes) (hgives : n.GivesUp) : r.notes.countP isFailure = b.maxAttempts + 1 := by
  obtain ⟨before, later, hsplit⟩ := List.append_of_mem hn
  obtain rfl := h.ends hsplit (.inr hgives)
  have hsetback : n.setback?.isSome = true := by
    obtain ⟨time, heq⟩ := hgives
    rw [heq]
    rfl
  rw [← setbacks_eq_failures hreached (h.told.unreached hreached), hsplit, setbacks_snoc,
    count_of_setback? hsetback, ((h.givesUp_iff hsplit hsetback).mp hgives).2.2]

/-! ## Steps -/

variable [ValueTree σ] {act : Connection.Effects × Connection σ} {id : Nat} {stopFirst : Bool}

/-- The step of another driver. -/
theorem Kept.passed (h : r.Kept b) (hother : id ≠ r.driver)
    (hact : r.connection.step? id stopFirst = some act) : (r.passed act.2).Kept b := by
  obtain ⟨_, _, _, -, -, hdoes⟩ := Connection.step?_does hact
  have hleaves := Connection.step?_leaves h.wish hact
  have hsame := hdoes.others r.driver (Ne.symm hother)
  refine ⟨hleaves.policy.trans h.policy, hdoes.wish.trans h.wish, hleaves.calm h.calm, h.told,
    fun d hd => h.stands d (hsame.symm.trans hd), ?_, fun hnone => ?_⟩
  · change act.2.drivers.get? r.driver = none ↔ _
    rw [hsame]
    exact h.alive
  · exact h.endless (hleaves.horizon.symm.trans hnone)

/-- A step of the driver. -/
theorem Kept.strode (h : r.Kept b) {d : Driver}
    (hd : r.connection.drivers.get? r.driver = some d)
    (hact : r.connection.step? r.driver stopFirst = some act) :
    (r.strode d.phase act.2).Kept b := by
  obtain ⟨_, _, _, -, -, hdoes⟩ := Connection.step?_does hact
  have hleaves := Connection.step?_leaves h.wish hact
  have hstands := h.stands d hd
  -- A driver that still makes steps has left no last note.
  have hopen : ∀ n ∈ r.notes, ¬ n.IsLast := fun n hn hlast =>
    nomatch (h.alive.mpr ⟨n, hn, hlast⟩).symm.trans hd
  rw [Connection.step?_eq_goOn? h.wish hd] at hact
  have hgoes := Connection.goOn?_goes h.policy h.calm hstands.free hact
  -- All that matters of the new note is how the driver goes on from it.
  unfold Retrying.strode
  generalize RetryNote.ofStep _ _ _ = n at hgoes ⊢
  refine ⟨hleaves.policy.trans h.policy, hdoes.wish.trans h.wish, hleaves.calm h.calm,
    h.told.goes hstands hopen hgoes, fun d' hd' => hstands.goes hgoes hd', ?_, fun hnone => ?_⟩
  · refine hgoes.isLast_iff.symm.trans ⟨fun hlast => ?_, fun ⟨m, hm, hlast⟩ => ?_⟩
    · exact ⟨n, List.mem_append_right _ (List.mem_singleton_self n), hlast⟩
    · obtain hm | hm := List.mem_append.mp hm
      · exact absurd hlast (hopen m hm)
      · rwa [List.mem_singleton.mp hm] at hlast
  · have hbefore := hleaves.horizon.symm.trans hnone
    rw [List.mem_append, not_or, List.mem_singleton]
    exact ⟨h.endless hbefore, Ne.symm (hgoes.endless hbefore)⟩

theorem Kept.drive (h : r.Kept b) (id : Nat) (stopFirst : Bool) :
    (r.drive id stopFirst).Kept b := by
  unfold Retrying.drive
  split
  · rename_i act phase hact hphase
    split
    · rename_i hown
      subst hown
      obtain ⟨d, hd, rfl⟩ := Option.map_eq_some_iff.mp hphase
      exact h.strode hd hact
    · rename_i hother
      exact h.passed hother hact
  · exact h

theorem Kept.ofMoves (h : r.Kept b) (moves : List (Move σ)) : (r.ofMoves moves).Kept b := by
  induction moves generalizing r with
  | nil => exact h
  | cons m moves ih =>
    refine ih ?_
    cases m with
    | drive id stopFirst => exact h.drive id stopFirst
    | foresee outcomes => exact h.foresee outcomes
    | touch act => exact h.touch _

/-! ## At every time -/

theorem Kept.waits (h : r.Kept b) {before : List RetryNote} {n : RetryNote} {time ms : Nat}
    (hsplit : r.notes = before ++ [n]) (hn : n.setback? = some (time, some ms))
    (stopFirst : Bool) : (r.connection.step? r.driver stopFirst).isSome = true ↔
      time + ms ≤ r.connection.endpoint.clock := by
  have hopen : ¬ ∃ m ∈ r.notes, m.IsLast := by
    rintro ⟨m, hm, hlast⟩
    rw [hsplit] at hm
    obtain hm | hm := List.mem_append.mp hm
    · exact h.told.last before n [] hsplit m hm hlast
    · obtain rfl := List.mem_singleton.mp hm
      obtain rfl | ⟨_, heq⟩ := hlast
      · cases hn
      · cases heq.symm.trans hn
  obtain ⟨d, hd⟩ := Option.ne_none_iff_exists'.mp (mt h.alive.mp hopen)
  rw [Connection.step?_eq_goOn? h.wish hd, Connection.goOn?, (h.stands d hd).rests hsplit hn]
  dsimp only
  split_ifs with hover
  · exact iff_of_true rfl hover
  · exact iff_of_false Bool.false_ne_true hover

theorem Kept.laws (h : r.Kept b) : r.Lawful b where
  delays := fun before n later hsplit time ms hn => h.delay_eq hsplit hn
  restarts := fun before n later hsplit time ms hn hzero => by
    rw [h.delay_eq hsplit hn, hzero, b.delayAfter_zero]
  rises := fun {before between later n n' time ms time' ms'} hsplit hn hn' hreached => by
    have hsplit' : r.notes = (before ++ n :: between) ++ n' :: later := by
      rw [hsplit, List.append_assoc, List.cons_append]
    rw [h.delay_eq hsplit hn, h.delay_eq hsplit' hn']
    refine b.delayAfter_mono (setbacks_mono (fun hmem => ?_) before)
    obtain rfl | hmem := List.mem_cons.mp hmem
    · cases hn
    · exact hreached hmem
  givesUp := fun before n later hsplit hn => h.givesUp_iff hsplit hn
  unreached := fun hreached hgives => by
    obtain ⟨n, hn, hgives⟩ := hgives
    exact h.unreached hreached hn hgives
  alive := by
    rw [Table.contains, Option.isSome_iff_ne_none, Ne, h.alive]
    simp only [not_exists, not_and]
  endless := h.endless
  last := h.ends
  waits := h.waits

/-- Whatever attempts come to, and however sessions end, as long as nobody stops the driver. -/
theorem ofStart_scheduled {c : Connection σ} {b : Backoff} (hpolicy : c.policy = .backoff b)
    (hstart : c.start.1 = true) (hcalm : c.endpoint.reason? ≠ some .stopped)
    (moves : List (Move σ)) : ((ofStart c).ofMoves moves).Lawful b :=
  ((Kept.ofStart hpolicy hstart hcalm).ofMoves moves).laws

/-- A client that nothing has happened to. -/
def client (b : Backoff) : Connection (MemoryTree Binding) :=
  { (Lifecycle.ofSettings {} {} true false none).connection with policy := .backoff b }

/-- An attempt fails, the next one succeeds, the session is lost, and then all attempts fail. -/
def hardTimes : List (Move (MemoryTree Binding)) :=
  [.foresee [.refuse, .ok, .refuse, .refuse], .drive 0 false, .drive 0 false,
    .touch (·.advance 100), .drive 0 false, .drive 0 false, .drive 0 false, .touch (·.hangUp),
    .drive 0 false, .drive 0 false, .touch (·.advance 100), .drive 0 false, .drive 0 false,
    .drive 0 false, .touch (·.advance 150), .drive 0 false, .drive 0 false, .drive 0 false]

theorem hardTimes_scheduled :
    let c := client ⟨100, 150, 2⟩
    c.policy = .backoff ⟨100, 150, 2⟩ ∧ c.start.1 = true ∧ c.endpoint.reason? ≠ some .stopped ∧
      ((ofStart c).ofMoves hardTimes).Lawful ⟨100, 150, 2⟩ :=
  ⟨rfl, rfl, by decide, ofStart_scheduled rfl rfl (by decide) hardTimes⟩

example : ((ofStart (client ⟨100, 150, 2⟩)).ofMoves hardTimes).notes =
    [.wentOn, .failed 0 (some 100), .wentOn, .wentOn, .connected, .wentOn, .dropped 100 (some 100),
      .wentOn, .wentOn, .failed 200 (some 150), .wentOn, .wentOn, .failed 350 none] := by
  decide +kernel

/-! ## Attempts that all fail -/

/-- An attempt fails, and some time passes. -/
def round (id ms : Nat) : List (Move (MemoryTree Binding)) :=
  [.foresee [.refuse], .drive id false, .drive id false, .touch (·.advance ms), .drive id false]

def rounds (id ms : Nat) : Nat → List (Move (MemoryTree Binding))
  | 0 => []
  | k + 1 => rounds id ms k ++ round id ms

/-- The driver has come to a phase after some setbacks, and nothing else is under way. -/
structure Poised (b : Backoff) (id setbacks clock : Nat) (phase : Phase)
    (r : Retrying (MemoryTree Binding)) : Prop where
  own : r.driver = id
  policy : r.connection.policy = .backoff b
  wish : r.connection.stopWished = false
  driver : r.connection.drivers.get? id = some ⟨phase, min setbacks Driver.maxSetbacks⟩
  session : r.connection.endpoint.session = none
  worker : r.connection.endpoint.peer.worker = { timers := { now := clock } }
  setbacks : RetryNote.setbacks r.notes = setbacks

variable {b : Backoff} {id k clock ms : Nat} {phase : Phase} {r : Retrying (MemoryTree Binding)}

theorem Poised.clock_eq (h : Poised b id k clock phase r) :
    r.connection.endpoint.clock = clock := by
  rw [Endpoint.clock, h.worker]
  rfl

theorem Poised.drive_eq (h : Poised b id k clock phase r)
    (act : Connection.Effects × Connection (MemoryTree Binding))
    (hact : r.connection.goOn? id ⟨phase, min k Driver.maxSetbacks⟩ = some act) :
    r.after (.drive id false) = r.strode phase act.2 := by
  rw [after, Retrying.drive, Connection.step?_eq_goOn? h.wish h.driver, hact, Connection.phaseOf?,
    h.driver]
  exact if_pos h.own.symm

theorem Poised.foresee (h : Poised b id k clock phase r) (outcomes : List ConnectOutcome) :
    Poised b id k clock phase (r.after (.foresee outcomes)) :=
  ⟨h.own, h.policy, h.wish, h.driver, h.session, h.worker, h.setbacks⟩

/-- Some time passes. -/
theorem Poised.advance (h : Poised b id k clock phase r) (ms : Nat) :
    let r' := r.after (.touch (·.advance ms))
    Poised b id k (clock + ms) phase r' ∧ r'.notes = r.notes := by
  have hsession : (r.connection.endpoint.advance ms).session = none := by
    rw [Endpoint.advance, h.session]
    rfl
  have hreason : (r.connection.endpoint.advance ms).reason? ≠ some .stopped := by
    rw [Endpoint.reason?, hsession]
    exact (Option.some_ne_none _).symm
  have hworker : (r.connection.endpoint.advance ms).peer.worker =
      { timers := { now := clock + ms } } := by
    rw [Endpoint.advance, h.worker]
    rfl
  dsimp only
  rw [after, Retrying.touch, if_neg hreason]
  exact ⟨⟨h.own, h.policy, h.wish, h.driver, hsession, hworker, h.setbacks⟩, rfl⟩

theorem Poised.attempt (h : Poised b id k clock .ready r)
    (hrefuse : r.connection.connector.outcomes = [.refuse]) :
    let r' := r.after (.drive id false)
    Poised b id k clock (.connecting .refuse) r' ∧ r'.notes = r.notes ++ [.wentOn] := by
  have hdrive := h.drive_eq (r.connection.attempt id _) <| by
    rw [Connection.goOn?, h.wish]
    rfl
  have houtcome : r.connection.connector.connect.1 = .refuse := by
    rw [Connector.connect, hrefuse]
    rfl
  dsimp only
  rw [hdrive]
  refine ⟨⟨h.own, h.policy, h.wish, ?_, h.session, h.worker, ?_⟩, rfl⟩
  · rw [← houtcome]
    exact Connection.setDriver_get? _ _ _
  · exact (setbacks_snoc r.notes .wentOn).trans h.setbacks

theorem Poised.fail (h : Poised b id k clock (.connecting .refuse) r)
    (hms : b.delay? (min (k + 1) Driver.maxSetbacks) = some ms) :
    let r' := r.after (.drive id false)
    Poised b id (k + 1) clock (.waiting (clock + ms)) r' ∧
      r'.notes = r.notes ++ [.failed clock (some ms)] := by
  have hdrive := h.drive_eq _ rfl
  obtain ⟨hnext, hendpoint⟩ := Connection.setback_next id
    ⟨.connecting .refuse, min k Driver.maxSetbacks⟩ h.policy
  have hleaves := r.connection.setback_leaves id ⟨.connecting .refuse, min k Driver.maxSetbacks⟩
  obtain ⟨_, _, -, hdoes⟩ :=
    r.connection.setback_does id ⟨.connecting .refuse, min k Driver.maxSetbacks⟩
  rw [Driver.countSetback_eq rfl, h.clock_eq, Backoff.next?, hms] at hnext
  dsimp only
  rw [hdrive]
  generalize r.connection.setback id _ = act at hnext hendpoint hleaves hdoes
  have hnotes : (r.strode (.connecting .refuse) act.2).notes =
      r.notes ++ [.failed clock (some ms)] := by
    rw [strode, hendpoint, h.clock_eq, h.own, Connection.phaseOf?, hnext, Option.map_some,
      Option.map_some, ofStep, delayFrom?, Nat.add_sub_cancel_left]
  refine ⟨⟨h.own, hleaves.policy.trans h.policy, hdoes.wish.trans h.wish, hnext, ?_, ?_, ?_⟩,
    hnotes⟩
  · exact (congrArg Endpoint.session hendpoint).trans h.session
  · exact (congrArg (·.peer.worker) hendpoint).trans h.worker
  · rw [hnotes, setbacks_snoc, h.setbacks]
    rfl

theorem Poised.wake {time : Nat} (h : Poised b id k clock (.waiting time) r)
    (htime : time ≤ clock) :
    let r' := r.after (.drive id false)
    Poised b id k clock .ready r' ∧ r'.notes = r.notes ++ [.wentOn] := by
  have hdrive := h.drive_eq ([], r.connection.setDriver id ⟨.ready, _⟩) <| by
    rw [Connection.goOn?]
    exact if_pos (h.clock_eq.symm ▸ htime)
  dsimp only
  rw [hdrive]
  refine ⟨⟨h.own, h.policy, h.wish, Connection.setDriver_get? _ _ _, h.session, h.worker, ?_⟩, rfl⟩
  exact (setbacks_snoc r.notes .wentOn).trans h.setbacks

/-- One more attempt fails. -/
theorem Poised.round (h : Poised b id k clock .ready r) {delay : Nat}
    (hdelay : b.delay? (min (k + 1) Driver.maxSetbacks) = some delay) (hms : delay ≤ ms) :
    let r' := r.ofMoves (round id ms)
    Poised b id (k + 1) (clock + ms) .ready r' ∧
      r'.notes = r.notes ++ [.wentOn, .failed clock (some delay), .wentOn] := by
  obtain ⟨hattempt, hnotes₁⟩ := (h.foresee [.refuse]).attempt rfl
  obtain ⟨hfail, hnotes₂⟩ := hattempt.fail hdelay
  obtain ⟨hlater, hnotes₃⟩ := hfail.advance ms
  obtain ⟨hready, hnotes₄⟩ := hlater.wake (Nat.add_le_add_left hms clock)
  refine ⟨hready, hnotes₄.trans ?_⟩
  rw [hnotes₃, hnotes₂, hnotes₁, List.append_assoc, List.append_assoc]
  rfl

theorem rounds_succ (r : Retrying (MemoryTree Binding)) (id ms k : Nat) :
    r.ofMoves (rounds id ms (k + 1)) = (r.ofMoves (rounds id ms k)).ofMoves (round id ms) :=
  List.foldl_append

theorem Poised.rounds (h : Poised b id 0 clock .ready r) (hendless : b.Endless)
    (hms : b.limit ≤ ms) (k : Nat) :
    ∃ clock', Poised b id k clock' .ready (r.ofMoves (rounds id ms k)) := by
  induction k with
  | zero => exact ⟨clock, h⟩
  | succ k ih =>
    obtain ⟨clock', hk⟩ := ih
    rw [rounds_succ]
    exact ⟨_, (hk.round (hendless.delay? k) (Nat.le_trans (b.delayAfter_le k) hms)).1⟩

/-- An endless driver comes to any number of setbacks in a row. -/
theorem exists_failed (b : Backoff) (hendless : b.Endless) (hms : b.limit ≤ ms) (k : Nat) :
    ∃ before time later, ((ofStart (client b)).ofMoves (rounds 0 ms (k + 1))).notes =
      before ++ .failed time (some (b.delayAfter k)) :: later ∧ setbacks before = k := by
  have hstart : Poised b 0 0 0 .ready (ofStart (client b)) := ⟨rfl, rfl, rfl, rfl, rfl, rfl, rfl⟩
  obtain ⟨clock, hk⟩ := hstart.rounds hendless hms k
  have hround := hk.round (hendless.delay? k) (Nat.le_trans (b.delayAfter_le k) hms)
  refine ⟨_ ++ [.wentOn], clock, [.wentOn], ?_, (setbacks_snoc _ .wentOn).trans hk.setbacks⟩
  rw [rounds_succ, hround.2, List.append_assoc]
  rfl

/-- The delay does not double for ever, even where the bound is far away; and a driver that may bear
as many setbacks as it can count never gives up. -/
theorem doubling_ends :
    ¬ Each (fun before n => ∀ time ms, n.setback? = some (time, some ms) →
        ms = min (1 * 2 ^ setbacks before) (max (2 ^ 64 - 1) 1))
      ((ofStart (client ⟨1, 2 ^ 64 - 1, 0⟩)).ofMoves (rounds 0 (2 ^ 64 - 1) 33)).notes ∧
    ¬ Each (fun before n => n.setback?.isSome = true →
        (n.GivesUp ↔ setbacks before = 2 ^ 32 - 1))
      ((ofStart (client ⟨1, 1, 2 ^ 32 - 1⟩)).ofMoves (rounds 0 1 (2 ^ 32 - 1 + 1))).notes := by
  constructor
  · obtain ⟨before, time, later, hsplit, hbefore⟩ :=
      exists_failed ⟨1, 2 ^ 64 - 1, 0⟩ (.inl rfl) (Nat.le_refl (2 ^ 64 - 1)) 32
    intro heach
    have hdelay := heach before _ later hsplit time _ rfl
    rw [hbefore] at hdelay
    exact absurd hdelay (by decide)
  · obtain ⟨before, time, later, hsplit, hbefore⟩ :=
      exists_failed ⟨1, 1, 2 ^ 32 - 1⟩ (.inr (by decide)) (Nat.le_refl 1) (2 ^ 32 - 1)
    intro heach
    obtain ⟨_, hgives⟩ := (heach before _ later hsplit rfl).mpr hbefore
    cases hgives

end Retrying
end PeerLink
