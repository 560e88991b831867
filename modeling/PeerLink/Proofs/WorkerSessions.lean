import PeerLink.Proofs.FiringTimes
import PeerLink.Proofs.TimerLags
import PeerLink.Timer.Workers

/-! # Sessions of workers without limit

* `Workers.Call`, `Workers.Session`: timers are added and cancelled, tasks that are held up are let
  go, the clock jumps, and after each call all firings run that can.
* `Workers.Mirrors`: what the workers have done is what happened in a run of the timer service.
* `Workers.Mirrors.settle`: they run as many rounds as it takes to come to rest.
* `Workers.session_mirrored`: so each session is a run in which the clock moves only at rest.
* `Workers.next_run_near`: so in each session the next run of a timer is within an interval of the
  end of its last firing.
-/

namespace PeerLink
set_option autoImplicit false

namespace TimerService

variable {τ : Type} (s : TimerService τ)

theorem start_due (t : Timer τ) (due : List (Timer τ)) :
    { s with due }.start t = ((s.start t).1, { (s.start t).2 with due }) := by
  have hmark : { s with due }.mark t.id = { s.mark t.id with due } := by
    have hsame : { s with due }.isCancelled t.id = s.isCancelled t.id := rfl
    unfold mark
    rw [hsame]
    split <;> rfl
  unfold start
  rw [hmark]
  split <;> rfl

theorem finish_due (t : Timer τ) (due : List (Timer τ)) :
    { s with due }.finish t = { s.finish t with due } := by
  unfold finish
  split <;> rfl

theorem letters_foldl_receive {α : Type} (ls : List α) (s : TimerService τ) :
    (ls.foldl (fun s _ => s.receive) s).letters = s.letters.drop ls.length := by
  induction ls generalizing s with
  | nil => rfl
  | cons l ls ih =>
    rw [List.foldl_cons, ih, receive_eq]
    simp

theorem letters_receiveAll : s.receiveAll.letters = [] := by
  rw [receiveAll, letters_foldl_receive, List.drop_length]

end TimerService

namespace Workers
open TimerRun

/-! ## Sessions -/

inductive Call
  | run (job : Job)
  | add (job : Job) (delay : Nat) (interval : Option Nat) (policy : FiringPolicy)
  | cancel (name : String)
  | release (name : String)
  | shutdown
  | advance (ms : Nat)

def call (w : Workers) : Call → Workers
  | .run job => (w.runJob job none).2
  | .add job delay interval policy => w.add job delay interval policy
  | .cancel name => w.cancel name
  | .release name => (w.release name).2
  | .shutdown => { w with timers := w.timers.shutdown }
  | .advance ms => { w with timers := w.timers.advance ms }

/-- Workers, and the firings that they have begun. -/
structure Session where
  workers : Workers := {}
  started : List Started := []

def Session.after (s : Session) (c : Call) : Session :=
  let (started, workers) := (s.workers.call c).settle
  { workers, started := s.started ++ started }

def Session.ofCalls (cs : List Call) : Session := cs.foldl after {}

/-- An interval, if there is one, has some length. -/
def Call.Regular : Call → Prop
  | .add _ _ interval _ => interval ≠ some 0
  | _ => True

/-! ## Runs -/

/-- What is told of a firing that begins. -/
def started? : TimerNote Job → Option Started
  | .began t time => some ⟨time, t.task.name⟩
  | _ => none

/-- What the workers have done is what happened in a run; the firings in `due` they have still to
begin. -/
structure Mirrors (w : Workers) (due : List (Timer Job)) (started : List Started)
    (ms : List (TimerMove Job)) : Prop where
  service : (run ms).service = { w.timers with due }
  idle : w.timers.due = []
  active : (run ms).active = w.held.filterMap (·.2)
  started : (run ms).notes.filterMap started? = started
  prompt : Prompt ms
  regular : ∀ m ∈ ms, m.Regular

variable {w w' : Workers} {due due' : List (Timer Job)} {begun begun' : List Started}
  {ms : List (TimerMove Job)} {m : TimerMove Job}

theorem mirrors_start : ({} : Workers).Mirrors [] [] [] where
  service := rfl
  idle := rfl
  active := rfl
  started := rfl
  prompt := .nil
  regular _ h := absurd h List.not_mem_nil

/-- What one more move is for the workers. -/
theorem Mirrors.snoc (h : w.Mirrors due begun ms) (hm : m.Regular)
    (hprompt : ∀ n, m = .advance n → (run ms).AtRest)
    (service : ((run ms).after m).service = { w'.timers with due := due' })
    (idle : w'.timers.due = [])
    (active : ((run ms).after m).active = w'.held.filterMap (·.2))
    (started : ((run ms).after m).notes.filterMap started? = begun') :
    w'.Mirrors due' begun' (ms ++ [m]) where
  service := (congrArg TimerRun.service (run_snoc ms m)).trans service
  idle := idle
  active := (congrArg TimerRun.active (run_snoc ms m)).trans active
  started := (congrArg (·.notes.filterMap started?) (run_snoc ms m)).trans started
  prompt := Along.snoc h.prompt hprompt
  regular m' hm' := by
    obtain hm' | hm' := List.mem_append.mp hm'
    · exact h.regular m' hm'
    · exact List.mem_singleton.mp hm' ▸ hm

/-! ## Letters and sweeps -/

theorem Mirrors.service_eq (h : w.Mirrors [] begun ms) : (run ms).service = w.timers := by
  rw [h.service, ← h.idle]

theorem Mirrors.stage_regular (h : w.Mirrors due begun ms) (id : Nat) :
    ((run ms).stage id).Regular :=
  TimerRun.stage_regular ms h.regular id

theorem Mirrors.receive (h : w.Mirrors [] begun ms) :
    Mirrors { w with timers := w.timers.receive } [] begun (ms ++ [.receive]) := by
  have hreceive : ((run ms).after .receive).service = w.timers.receive :=
    congrArg TimerService.receive h.service_eq
  have hidle : w.timers.receive.due = [] := by
    rw [TimerService.receive_eq]
    exact h.idle
  refine h.snoc trivial nofun ?_ hidle h.active h.started
  rw [hreceive, ← hidle]

/-- The service reads its letters, which adds to no lag. -/
theorem Mirrors.reads {α : Type} (ls : List α) (h : w.Mirrors [] begun ms) :
    ∃ ms', Mirrors { w with timers := ls.foldl (fun s _ => s.receive) w.timers } [] begun
      (ms ++ ms') ∧ (run (ms ++ ms')).lag ≤ (run ms).lag := by
  induction ls generalizing w ms with
  | nil => exact ⟨[], by rwa [List.append_nil], by rw [List.append_nil]⟩
  | cons l ls ih =>
    obtain ⟨ms', hmirrors, hlag⟩ := ih h.receive
    rw [List.append_assoc] at hmirrors hlag
    refine ⟨_, hmirrors, Nat.le_trans hlag ?_⟩
    rw [run_snoc]
    exact (kept_run ms).lag_after h.stage_regular trivial

/-- The service hands what is due to the workers. -/
theorem Mirrors.sweep (h : w.Mirrors [] begun ms) :
    Mirrors { w with timers := w.timers.sweep.takeFirings.2 } w.timers.sweep.due begun
      (ms ++ [.sweep]) :=
  h.snoc trivial nofun (congrArg TimerService.sweep h.service_eq) rfl h.active h.started

/-! ## Firings -/

theorem runFiring_eq (w : Workers) (t : Timer Job) :
    w.runFiring t =
      if t.id ∈ w.timers.cancelled then
        ([], { w with timers := (w.timers.start t).2.finish t })
      else
        ([⟨w.timers.now, t.task.name⟩],
          if t.task.blocks then
            { w with timers := (w.timers.start t).2, held := w.held ++ [(t.task, some t)] }
          else { w with timers := (w.timers.start t).2.finish t }) := by
  have hnow : (w.timers.start t).2.now = w.timers.now := by rw [start_eq]
  by_cases hc : t.id ∈ w.timers.cancelled
  · have hmarked := TimerService.isCancelled_iff.mpr hc
    rw [if_pos hc]
    simp only [Workers.runFiring, TimerService.start, hmarked, Bool.not_true, Bool.false_eq_true,
      if_false, Workers.finish]
  · have hmarked : w.timers.isCancelled t.id = false := by
      simpa using mt TimerService.isCancelled_iff.mp hc
    rw [if_neg hc]
    simp only [Workers.runFiring, runJob, Workers.finish, ← hnow]
    simp only [TimerService.start, hmarked, Bool.not_false, if_true]

/-- A worker takes up the first of the firings. -/
theorem Mirrors.takeUp {t : Timer Job} (h : w.Mirrors (t :: due) begun ms) :
    (run ms).after (.start 0) =
      if t.id ∈ w.timers.cancelled then
        { run ms with service := { (w.timers.start t).2.finish t with due } }
      else
        { service := { (w.timers.start t).2 with due }
          active := (run ms).active ++ [t]
          notes := (run ms).notes ++ [.began t w.timers.now] } := by
  have hfirst : (run ms).service.due[0]? = some t := by
    rw [h.service]
    rfl
  simp only [TimerRun.after, hfirst, takeUp_eq]
  rw [h.service]
  dsimp only [List.eraseIdx_zero, List.tail_cons]
  rw [TimerService.start_due, TimerService.finish_due]
  rfl

/-- Its task runs. -/
theorem Mirrors.begin {t : Timer Job} (h : w.Mirrors (t :: due) begun ms)
    (hkept : t.id ∉ w.timers.cancelled) :
    Mirrors { w with timers := (w.timers.start t).2, held := w.held ++ [(t.task, some t)] } due
      (begun ++ [⟨w.timers.now, t.task.name⟩]) (ms ++ [.start 0]) := by
  have htakeUp := h.takeUp
  rw [if_neg hkept] at htakeUp
  refine h.snoc trivial nofun ?_ ?_ ?_ ?_
  · rw [htakeUp]
  · rw [start_eq]
    exact h.idle
  · rw [htakeUp, List.filterMap_append, h.active]
    rfl
  · rw [htakeUp, List.filterMap_append, h.started]
    rfl

/-- It is passed over. -/
theorem Mirrors.passOver {t : Timer Job} (h : w.Mirrors (t :: due) begun ms)
    (hcancelled : t.id ∈ w.timers.cancelled) :
    Mirrors { w with timers := (w.timers.start t).2.finish t } due begun (ms ++ [.start 0]) := by
  have htakeUp := h.takeUp
  rw [if_pos hcancelled] at htakeUp
  refine h.snoc trivial nofun ?_ ?_ ?_ ?_
  · rw [htakeUp]
  · rw [finish_eq, start_eq]
    exact h.idle
  · rw [htakeUp]
    exact h.active
  · rw [htakeUp]
    exact h.started

/-- One of the tasks that a timer fired ends. -/
theorem Mirrors.finish {t : Timer Job} {job : Job} {before after : List (Job × Option (Timer Job))}
    (h : w.Mirrors due begun ms) (hheld : w.held = before ++ (job, some t) :: after) :
    Mirrors { w with timers := w.timers.finish t, held := before ++ after } due begun
      (ms ++ [.finish (before.filterMap (·.2)).length .returned]) := by
  have hactive : (run ms).active = before.filterMap (·.2) ++ t :: after.filterMap (·.2) := by
    rw [h.active, hheld, List.filterMap_append]
    rfl
  have htaken : (run ms).active[(before.filterMap (·.2)).length]? = some t := by
    rw [hactive, List.getElem?_append_right (Nat.le_refl _), Nat.sub_self]
    rfl
  refine h.snoc trivial nofun ?_ ?_ ?_ ?_
  · simp only [TimerRun.after, htaken]
    rw [h.service, TimerService.finish_due]
  · rw [finish_eq]
    exact h.idle
  · simp only [TimerRun.after, htaken]
    rw [hactive, List.eraseIdx_append_of_length_le (Nat.le_refl _), Nat.sub_self,
      List.filterMap_append]
    rfl
  · simp only [TimerRun.after, htaken]
    rw [List.filterMap_append, h.started]
    exact List.append_nil _

theorem Mirrors.runFiring {t : Timer Job} (h : w.Mirrors (t :: due) begun ms) :
    ∃ ms', (w.runFiring t).2.Mirrors due (begun ++ (w.runFiring t).1) (ms ++ ms') ∧
      (run (ms ++ ms')).lag ≤ (run ms).lag := by
  have hstart : (run (ms ++ [.start 0])).lag ≤ (run ms).lag := by
    rw [run_snoc]
    exact (kept_run ms).lag_after h.stage_regular trivial
  rw [runFiring_eq]
  split
  · rename_i hc
    refine ⟨[.start 0], ?_, hstart⟩
    rw [List.append_nil]
    exact h.passOver hc
  · rename_i hc
    have hbegin := h.begin hc
    dsimp only
    split
    · exact ⟨[.start 0], hbegin, hstart⟩
    · have hend := hbegin.finish rfl
      rw [List.append_nil, ← h.active, List.append_assoc] at hend
      refine ⟨_, hend, ?_⟩
      have hdue : (run ms).service.due = t :: due := by rw [h.service]
      rw [← List.append_assoc, run_snoc, run_snoc]
      exact (kept_run ms).lag_work h.stage_regular hdue _

theorem Mirrors.runFirings (h : w.Mirrors due begun ms) :
    ∃ ms', (w.runFirings due).2.Mirrors [] (begun ++ (w.runFirings due).1) (ms ++ ms') ∧
      (run (ms ++ ms')).lag ≤ (run ms).lag := by
  induction due generalizing w begun ms with
  | nil => exact ⟨[], by simpa [Workers.runFirings] using h, by rw [List.append_nil]⟩
  | cons t ts ih =>
    obtain ⟨ms', hfirst, hlag⟩ := h.runFiring
    obtain ⟨ms'', hrest, hlag'⟩ := ih hfirst
    rw [List.append_assoc] at hrest hlag'
    rw [List.append_assoc] at hrest
    exact ⟨_, hrest, Nat.le_trans hlag' hlag⟩

/-! ## Rounds -/

/-- The firings that are due have been taken over. -/
def handOver (w : Workers) : Workers := { w with timers := w.timers.rest.takeFirings.2 }

theorem settleFor_succ (fuel : Nat) (w : Workers) :
    w.settleFor (fuel + 1) =
      if w.timers.rest.due = [] then ([], w.handOver)
      else
        let (a, w) := w.handOver.runFirings w.timers.rest.due
        let (b, w) := settleFor fuel w
        (a ++ b, w) := by
  rw [settleFor]
  dsimp only [handOver, TimerService.takeFirings]
  simp only [List.isEmpty_iff]

/-- The service reads its letters, which adds to no lag, and hands over what is due. -/
theorem Mirrors.handOver (h : w.Mirrors [] begun ms) :
    ∃ ms', Mirrors { w with timers := w.timers.receiveAll } [] begun (ms ++ ms') ∧
      (run (ms ++ ms')).lag ≤ (run ms).lag ∧
      w.handOver.Mirrors w.timers.rest.due begun (ms ++ ms' ++ [.sweep]) := by
  obtain ⟨ms', hreads, hlag⟩ := h.reads w.timers.letters
  exact ⟨ms', hreads, hlag, hreads.sweep⟩

/-- If nothing was due, all is at rest. -/
theorem Mirrors.rests (h : w.handOver.Mirrors [] begun (ms ++ [.sweep])) :
    (run (ms ++ [.sweep])).AtRest where
  letters := by
    rw [h.service]
    dsimp only [Workers.handOver, TimerService.takeFirings, TimerService.rest]
    rw [TimerService.sweep_eq]
    exact w.timers.letters_receiveAll
  begun := by
    rw [h.service]
  swept hworks := by
    rw [run_snoc] at hworks ⊢
    refine (kept_run ms).swept ?_
    cases hstopped : (run ms).service.stopped with
    | false => rfl
    | true => exact absurd ((stopped_after hstopped .sweep).1.symm.trans hworks) (by decide)

/-- As long as there are more rounds to come than timers lag behind, the last of them is at rest. -/
theorem Mirrors.settleFor (fuel : Nat) (h : w.Mirrors [] begun ms)
    (hfuel : ∀ ms', Mirrors { w with timers := w.timers.receiveAll } [] begun (ms ++ ms') →
      (run (ms ++ ms')).lag ≤ (run ms).lag → (run (ms ++ ms')).lag < fuel) :
    ∃ ms', (settleFor fuel w).2.Mirrors [] (begun ++ (settleFor fuel w).1) (ms ++ ms') ∧
      (run (ms ++ ms')).AtRest := by
  induction fuel generalizing w begun ms with
  | zero =>
    obtain ⟨ms', hread, hlag, -⟩ := h.handOver
    exact absurd (hfuel ms' hread hlag) (Nat.not_lt_zero _)
  | succ fuel ih =>
    obtain ⟨reads, hreads, hlag, hover⟩ := h.handOver
    have hbound := hfuel reads hreads hlag
    rw [settleFor_succ]
    split
    · rename_i hdue
      rw [hdue] at hover
      refine ⟨reads ++ [.sweep], ?_, ?_⟩
      · rwa [← List.append_assoc, List.append_nil]
      · rw [← List.append_assoc]
        exact hover.rests
    · rename_i hdue
      obtain ⟨works, hworks, hle⟩ := hover.runFirings
      have hlt : (run (ms ++ reads ++ [.sweep])).lag < (run (ms ++ reads)).lag := by
        have hidle : (run (ms ++ reads)).service.due = [] := by rw [hreads.service]
        have hfires : (run (ms ++ reads ++ [.sweep])).service.due ≠ [] := by
          rw [hover.service]
          exact hdue
        rw [run_snoc] at hfires ⊢
        exact (kept_run _).lag_sweep hreads.stage_regular hidle hfires
      obtain ⟨rest, hrest, hatRest⟩ := ih hworks fun ms' _ hle' => by omega
      refine ⟨reads ++ [.sweep] ++ works ++ rest, ?_, ?_⟩
      · simpa only [List.append_assoc] using hrest
      · simpa only [List.append_assoc] using hatRest

/-- There are more rounds than timers can be behind. -/
theorem lag_lt_rounds (w : Workers) :
    (w.timers.receiveAll.queue.waiting.values.map (·.lag w.timers.receiveAll.now)).sum <
      w.rounds := by
  unfold rounds
  dsimp only
  rw [← List.sum_eq_foldl]
  have hle : (w.timers.receiveAll.queue.waiting.values.map (·.lag w.timers.receiveAll.now)).sum ≤
      (w.timers.receiveAll.queue.waiting.values.map
        fun t => w.timers.receiveAll.now - t.nextRun + 2).sum := by
    refine List.sum_le_sum fun t _ => ?_
    unfold Timer.lag
    omega
  omega

/-- After each call the workers come to rest. -/
theorem Mirrors.settle (h : w.Mirrors [] begun ms) :
    ∃ ms', w.settle.2.Mirrors [] (begun ++ w.settle.1) (ms ++ ms') ∧ (run (ms ++ ms')).AtRest := by
  refine h.settleFor w.rounds fun ms' hreads _ => ?_
  have hlag := (kept_run (ms ++ ms')).lag_le_waiting ?_ ?_
  · rw [hreads.service] at hlag
    exact Nat.lt_of_le_of_lt hlag w.lag_lt_rounds
  · rw [hreads.service]
    exact w.timers.letters_receiveAll
  · rw [hreads.service]

/-! ## Calls -/

theorem Mirrors.still (h : w.Mirrors due begun ms) : w.Mirrors due begun (ms ++ []) := by
  rwa [List.append_nil]

/-- A task that no timer fired is no part of a run. -/
theorem Mirrors.held {held : List (Job × Option (Timer Job))} (h : w.Mirrors due begun ms)
    (hheld : held.filterMap (·.2) = w.held.filterMap (·.2)) :
    Mirrors { w with held } due begun ms :=
  { h with active := h.active.trans hheld.symm }

theorem Mirrors.add (h : w.Mirrors [] begun ms) (job : Job) (delay : Nat) {interval : Option Nat}
    (hinterval : interval ≠ some 0) (policy : FiringPolicy) :
    (w.add job delay interval policy).Mirrors [] begun
      (ms ++ [.add job delay interval policy]) := by
  refine h.snoc hinterval nofun ?_ h.idle h.active ?_
  · exact congrArg (fun s => (s.add job delay interval policy).2) h.service
  · refine (List.filterMap_append ..).trans ?_
    rw [h.started]
    exact List.append_nil _

theorem Mirrors.cancel (h : w.Mirrors [] begun ms) (id : Nat) :
    Mirrors { w with timers := w.timers.cancel id } [] begun (ms ++ [.cancel id]) := by
  have hidle : (w.timers.cancel id).due = [] := by
    rw [service_cancel]
    exact h.idle
  refine h.snoc trivial nofun ?_ hidle h.active ?_
  · dsimp only
    rw [← hidle]
    exact congrArg (·.cancel id) h.service_eq
  · refine (List.filterMap_append ..).trans ?_
    rw [h.started]
    exact List.append_nil _

theorem Mirrors.shutdown (h : w.Mirrors [] begun ms) :
    Mirrors { w with timers := w.timers.shutdown } [] begun (ms ++ [.shutdown]) :=
  h.snoc trivial nofun (congrArg TimerService.shutdown h.service) h.idle h.active h.started

theorem Mirrors.advance (h : w.Mirrors [] begun ms) (hrest : (run ms).AtRest) (n : Nat) :
    Mirrors { w with timers := w.timers.advance n } [] begun (ms ++ [.advance n]) :=
  h.snoc trivial (fun _ _ => hrest) (congrArg (·.advance n) h.service) h.idle h.active h.started

/-- A task that is let go ends, and with it the firing of the timer that fired it. -/
theorem Mirrors.release (h : w.Mirrors [] begun ms) (name : String) :
    ∃ ms', (w.release name).2.Mirrors [] begun (ms ++ ms') := by
  unfold Workers.release
  split
  · exact ⟨[], h.still⟩
  · rename_i job t hfind
    obtain ⟨hname, before, after, hheld, hbefore⟩ := List.find?_eq_some_iff_append.mp hfind
    have herase : w.held.eraseP (·.1.name = name) = before ++ after := by
      have hfirst : ((job, t) :: after).eraseP (·.1.name = name) = after :=
        List.eraseP_cons_of_pos hname
      rw [hheld, List.eraseP_append_right _ fun b hb => by simpa using hbefore b hb, hfirst]
    dsimp only
    rw [herase]
    cases t with
    | some t => exact ⟨_, h.finish hheld⟩
    | none =>
      refine ⟨[], h.still.held ?_⟩
      rw [hheld, List.filterMap_append, List.filterMap_append, List.filterMap_cons_none rfl]

/-- A call is one move, or none. -/
theorem Mirrors.call (h : w.Mirrors [] begun ms) (hrest : (run ms).AtRest) (c : Call)
    (hc : c.Regular) : ∃ ms', (w.call c).Mirrors [] begun (ms ++ ms') := by
  cases c with
  | run job =>
    refine ⟨[], ?_⟩
    simp only [Workers.call, runJob, Workers.finish]
    split
    · refine h.still.held ?_
      rw [List.filterMap_append]
      exact List.append_nil _
    · exact h.still
  | add job delay interval policy => exact ⟨_, h.add job delay hc policy⟩
  | cancel name =>
    simp only [Workers.call, Workers.cancel]
    split
    · exact ⟨[], h.still⟩
    · exact ⟨_, h.cancel _⟩
  | release name => exact h.release name
  | shutdown => exact ⟨_, h.shutdown⟩
  | advance n => exact ⟨_, h.advance hrest n⟩

/-! ## Sessions as runs -/

/-- A session that goes on is a run that goes on. -/
theorem Mirrors.calls {s : Session} (cs : List Call) (hcs : ∀ c ∈ cs, c.Regular)
    (h : s.workers.Mirrors [] s.started ms) (hrest : (run ms).AtRest) :
    ∃ ms', (cs.foldl Session.after s).workers.Mirrors [] (cs.foldl Session.after s).started
      (ms ++ ms') ∧ (run (ms ++ ms')).AtRest := by
  induction cs generalizing s ms with
  | nil => exact ⟨[], h.still, by rwa [List.append_nil]⟩
  | cons c cs ih =>
    obtain ⟨hc, hcs⟩ := List.forall_mem_cons.mp hcs
    obtain ⟨called, hcall⟩ := h.call hrest c hc
    obtain ⟨settled, hsettle, hrest'⟩ := hcall.settle
    obtain ⟨ms', hmirrors⟩ := ih (s := s.after c) hcs hsettle hrest'
    refine ⟨called ++ (settled ++ ms'), ?_⟩
    rwa [← List.append_assoc, ← List.append_assoc]

/-- Each session is a run in which the clock moves only at rest. -/
theorem session_mirrored (cs : List Call) (hcs : ∀ c ∈ cs, c.Regular) :
    ∃ ms, (Session.ofCalls cs).workers.Mirrors [] (Session.ofCalls cs).started ms ∧
      (run ms).AtRest :=
  Mirrors.calls (s := {}) cs hcs mirrors_start ⟨rfl, rfl, fun _ => rfl⟩

/-- If a timer is added in a session, then it is added in the run. -/
theorem added_mirrored {before later : List Call} {job : Job} {delay : Nat} {interval : Option Nat}
    {policy : FiringPolicy}
    (hcs : ∀ c ∈ before ++ .add job delay interval policy :: later, c.Regular) :
    let s := Session.ofCalls (before ++ .add job delay interval policy :: later)
    ∃ ms ms', (run ms).service = (Session.ofCalls before).workers.timers ∧
      s.workers.Mirrors [] s.started (ms ++ .add job delay interval policy :: ms') ∧
      (run (ms ++ .add job delay interval policy :: ms')).AtRest := by
  intro s
  obtain ⟨hbefore, hadded⟩ := List.forall_mem_append.mp hcs
  obtain ⟨hinterval, hlater⟩ := List.forall_mem_cons.mp hadded
  obtain ⟨ms, hmirrors, -⟩ := session_mirrored before hbefore
  obtain ⟨settled, hsettle, hrest⟩ := (hmirrors.add job delay hinterval policy).settle
  obtain ⟨ms', hend⟩ :=
    Mirrors.calls (s := (Session.ofCalls before).after (.add job delay interval policy)) later
      hlater hsettle hrest
  refine ⟨ms, settled ++ ms', hmirrors.service_eq, ?_⟩
  have hsplit : Session.ofCalls (before ++ .add job delay interval policy :: later) =
      later.foldl Session.after ((Session.ofCalls before).after (.add job delay interval policy)) :=
    List.foldl_append
  simpa only [s, hsplit, List.append_assoc, List.cons_append, List.nil_append] using hend

/-! ## Times of the next run -/

/-- The timer is wanted, and none of its firings is held up. -/
structure Session.Wants (s : Session) (id : Nat) : Prop where
  works : s.workers.timers.stopped = false
  kept : id ∉ s.workers.timers.cancelled
  idle : ∀ t ∈ s.workers.held.filterMap (·.2), t.id ≠ id

theorem Session.Wants.rests {s : Session} {id : Nat} (h : s.Wants id)
    (hmirrors : s.workers.Mirrors [] s.started ms) (hrest : (run ms).AtRest) :
    (run ms).Rests id where
  toAtRest := hrest
  works := hmirrors.service_eq ▸ h.works
  kept := hmirrors.service_eq ▸ h.kept
  idle := hmirrors.active ▸ h.idle

/-- After each call the next run of a timer that passes over ticks comes after the end of its last
firing, and not more than an interval after it. -/
theorem next_run_near {before later : List Call} {job : Job} {delay interval : Nat}
    (hcs : ∀ c ∈ before ++ .add job delay (some interval) .skip :: later, c.Regular) :
    let s := Session.ofCalls (before ++ .add job delay (some interval) .skip :: later)
    let id := (Session.ofCalls before).workers.timers.nextId
    s.Wants id → ∃ ms, s.workers.Mirrors [] s.started ms ∧ (run ms).Rests id ∧
      ((run ms).begins id ≠ [] → ∃ t e, s.workers.timers.queue.waiting.get? id = some t ∧
        ((run ms).ends id).getLast? = some e ∧ e < t.nextRun ∧ t.nextRun ≤ e + interval) := by
  intro s id hwants
  have hadded : Call.Regular (.add job delay (some interval) .skip) :=
    hcs _ (List.mem_append_right _ List.mem_cons_self)
  have hpos : 0 < interval := Nat.pos_of_ne_zero fun hzero => hadded (congrArg some hzero)
  obtain ⟨ms, ms', hbefore, hmirrors, hrest⟩ := added_mirrored hcs
  have hrests := hwants.rests hmirrors hrest
  obtain ⟨stage, hstands, hontime⟩ := on_time ms job delay interval .skip ms' hpos
  rw [hbefore] at hstands hontime
  obtain ⟨t, hwaits, hawaits, -⟩ := hontime.rests (kept_run _) hstands hrests
  refine ⟨_, hmirrors, hrests, fun hbegun => ?_⟩
  obtain ⟨e, hlast, hlater, hnear⟩ := hawaits.last_end rfl hbegun
  -- In a session the clock has moved only at rest.
  exact ⟨t, e, hmirrors.service_eq ▸ hwaits, hlast, hlater, hnear hmirrors.prompt⟩

end Workers
end PeerLink
