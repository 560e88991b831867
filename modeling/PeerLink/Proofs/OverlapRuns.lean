import Mathlib.Data.List.Induction
import Mathlib.Data.List.ReduceOption
import PeerLink.Proofs.OverlapSteps

/-! # Overlapping calls over many moves

* `Shared.Kept`: the invariant; each call and each stride of a driver keeps it.
* `Shared.calls_lawful`: whatever is called, and whatever happens, all laws hold.
* `Shared.calls_clash`: without an order among the calls there can be two drivers, a driver can go
  on after it was to stop, and it can be published that there is no connection in a session.
-/

namespace PeerLink
set_option autoImplicit false

namespace CallNote

/-! ## One more note -/

theorem alive_snoc (ns : List CallNote) (n : CallNote) :
    alive (ns ++ [n]) = aliveAfter (alive ns) n := by
  rw [alive, List.foldl_append]
  rfl

theorem binder?_snoc (ns : List CallNote) (n : CallNote) :
    binder? (ns ++ [n]) = binderAfter (binder? ns) n := by
  rw [binder?, List.foldl_append]
  rfl

theorem attempts_snoc (id : Nat) (ns : List CallNote) (n : CallNote) :
    attempts id (ns ++ [n]) = attemptAfter id (attempts id ns) n := by
  rw [attempts, List.foldl_append]
  rfl

theorem strides_snoc (id : Nat) (ns : List CallNote) (n : CallNote) :
    strides id (ns ++ [n]) = strides id ns + (stridesOf id n).toNat := by
  rw [strides, List.countP_append]
  cases h : stridesOf id n <;> simp [strides, h]

theorem sessions_snoc (id : Nat) (ns : List CallNote) (n : CallNote) :
    sessions id (ns ++ [n]) = sessions id ns + (opensOf id n).toNat := by
  rw [sessions, List.countP_append]
  cases h : opensOf id n <;> simp [sessions, h]

theorem Lost.snoc {id : Nat} {ns : List CallNote} (h : Lost id ns) (n : CallNote) :
    Lost id (ns ++ [n]) := by
  obtain ⟨es, hmem, hopen⟩ := h
  exact ⟨es, List.mem_append_left _ hmem, hopen⟩

/-- What has come since a stop, when there is one more note. -/
theorem split_stop {ns before since : List CallNote} {n : CallNote}
    (h : ns ++ [n] = before ++ .stopBegan :: since) :
    (n = .stopBegan ∧ before = ns ∧ since = []) ∨
      ∃ since', since = since' ++ [n] ∧ ns = before ++ .stopBegan :: since' := by
  obtain rfl | ⟨since', last, rfl⟩ := since.eq_nil_or_concat
  · obtain ⟨rfl, hlast⟩ := List.append_inj' h rfl
    exact .inl ⟨List.singleton_inj.mp hlast, rfl, rfl⟩
  · rw [List.concat_eq_append, ← List.cons_append, ← List.append_assoc] at h
    obtain ⟨rfl, hlast⟩ := List.append_inj' h rfl
    rw [List.concat_eq_append, List.singleton_inj.mp hlast]
    exact .inr ⟨since', rfl, rfl⟩

/-- With one start after the other there is one driver at most. -/
theorem alive_le_one {ns : List CallNote}
    (h : Each (fun before n => n.IsStart → alive before = []) ns) : (alive ns).length ≤ 1 := by
  induction ns using List.reverseRecOn with
  | nil => exact Nat.zero_le 1
  | append_singleton ns n ih =>
    have hearlier := ih h.of_append
    rw [alive_snoc]
    cases n with
    | started id =>
      rw [aliveAfter, h ns (.started id) [] rfl trivial]
      exact Nat.le_refl 1
    | stopBegan | stopReturned => exact hearlier
    | strode id es done =>
      cases done with
      | false => exact hearlier
      | true => exact Nat.le_trans (List.length_filter_le _ _) hearlier

end CallNote

namespace Shared
variable {σ : Type} {s : Shared σ}

open CallNote

/-! ## The invariant -/

/-- The driver of the last start, and those that calls to stop wait for. -/
def holders (s : Shared σ) : List Nat := s.connection.owned.toList ++ s.stops.reduceOption

/-- What is left to a driver, and what it has done since. -/
structure Spent (s : Shared σ) (before since : List CallNote) (id : Nat) : Prop where
  steps : strides id since + Phase.effortOf (s.connection.phaseOf? id) ≤ 5
  sessions : CallNote.sessions id since + Phase.chancesOf (s.connection.phaseOf? id) ≤
    (attempts id before).toNat

structure Kept (s : Shared σ) : Prop where
  once : s.holders.Nodup
  early : ∀ id ∈ s.holders, id < s.connection.nextDriver
  held : ∀ id, (s.connection.phaseOf? id).isSome = true → id ∈ s.holders
  living : ∀ id, (s.connection.phaseOf? id).isSome = true ↔ id ∈ alive s.notes
  apart : (alive s.notes).Nodup
  chances : ∀ id, Phase.chancesOf (s.connection.phaseOf? id) = (attempts id s.notes).toNat
  bound : s.connection.endpoint.session.isSome = (binder? s.notes).isSome
  binder : ∀ id, binder? s.notes = some id →
    (∃ phase, s.connection.phaseOf? id = some phase ∧ phase.InSession) ∨ Lost id s.notes
  ceasing : ∀ before since, s.notes = before ++ .stopBegan :: since →
    (∀ n ∈ since, ¬ n.IsStart) →
      s.connection.stopWished = true ∧ ∀ id, s.Spent before since id
  published : Each (fun before n => n.Drops → ∀ id, binder? (before ++ [n]) = some id →
    id ∈ alive before ∧ n.party? ≠ some id ∨ Lost id before) s.notes

theorem contains_eq (c : Connection σ) (id : Nat) :
    c.drivers.contains id = (c.phaseOf? id).isSome := Option.isSome_map.symm

theorem Kept.ofSettings (config : LinkConfig) (tree : σ) (asks serves : Bool)
    (horizon : Option Nat) : (ofSettings config tree asks serves horizon).Kept where
  once := List.nodup_nil
  early := List.forall_mem_nil _
  held := fun _ hid => absurd hid Bool.false_ne_true
  living := fun _ => iff_of_false Bool.false_ne_true List.not_mem_nil
  apart := List.nodup_nil
  chances := fun _ => rfl
  bound := rfl
  binder := fun _ hid => absurd hid.symm (Option.some_ne_none _)
  ceasing := fun _ _ hsplit => absurd hsplit.symm
    (List.append_ne_nil_of_right_ne_nil _ (List.cons_ne_nil _ _))
  published := .nil

/-- What happens at the endpoint, the policy and the connector are no matter. -/
theorem Kept.same (h : s.Kept) (c : Connection σ) (howned : c.owned = s.connection.owned)
    (hdrivers : c.drivers = s.connection.drivers) (hnext : c.nextDriver = s.connection.nextDriver)
    (hwish : c.stopWished = s.connection.stopWished)
    (hbound : c.endpoint.session.isSome = s.connection.endpoint.session.isSome) :
    Kept { s with connection := c } := by
  have hholders : holders { s with connection := c } = s.holders := by
    rw [holders, howned]
    rfl
  have hphase : ∀ id, c.phaseOf? id = s.connection.phaseOf? id := by
    intro id
    rw [Connection.phaseOf?, hdrivers]
    rfl
  refine ⟨hholders ▸ h.once, ?_, ?_, ?_, h.apart, ?_, hbound.trans h.bound, ?_, ?_, h.published⟩
  · rw [hholders, hnext]
    exact h.early
  · intro id hid
    rw [hphase] at hid
    exact hholders ▸ h.held id hid
  · intro id
    rw [hphase]
    exact h.living id
  · intro id
    rw [hphase]
    exact h.chances id
  · intro id hid
    rw [hphase]
    exact h.binder id hid
  · intro before since hsplit hnone
    obtain ⟨hstands, hspent⟩ := h.ceasing before since hsplit hnone
    refine ⟨hwish.trans hstands, ?_⟩
    intro id
    obtain ⟨hsteps, hsessions⟩ := hspent id
    rw [← hphase] at hsteps hsessions
    exact ⟨hsteps, hsessions⟩

/-! ### Calls -/

theorem Kept.mem_alive (h : s.Kept) {id : Nat} {phase : Phase}
    (hphase : s.connection.phaseOf? id = some phase) : id ∈ alive s.notes := by
  refine (h.living id).mp ?_
  rw [hphase]
  rfl

/-- A number that is not given to a driver yet. -/
theorem Kept.absent (h : s.Kept) : s.connection.phaseOf? s.connection.nextDriver = none := by
  refine Option.not_isSome_iff_eq_none.mp ?_
  intro hsome
  exact Nat.lt_irrefl _ (h.early _ (h.held _ hsome))

/-- What is left to drivers after one more note, if each step that it tells of has been spent. -/
theorem Kept.ceasing_snoc (h : s.Kept) {s' : Shared σ} {n : CallNote}
    (hnotes : s'.notes = s.notes ++ [n])
    (hwish : s.connection.stopWished = true ∨ n = .stopBegan → s'.connection.stopWished = true)
    (hspent : s.connection.stopWished = true ∨ n = .stopBegan → ∀ id,
      (stridesOf id n).toNat + Phase.effortOf (s'.connection.phaseOf? id) ≤
          Phase.effortOf (s.connection.phaseOf? id) ∧
        (opensOf id n).toNat + Phase.chancesOf (s'.connection.phaseOf? id) ≤
          Phase.chancesOf (s.connection.phaseOf? id)) (before since : List CallNote)
    (hsplit : s'.notes = before ++ .stopBegan :: since) (hnone : ∀ n ∈ since, ¬ n.IsStart) :
    s'.connection.stopWished = true ∧ ∀ id, s'.Spent before since id := by
  rw [hnotes] at hsplit
  obtain ⟨rfl, rfl, rfl⟩ | ⟨since', rfl, hearlier⟩ := split_stop hsplit
  · -- the stop has just begun, and nothing has been spent since
    refine ⟨hwish (.inr rfl), ?_⟩
    intro id
    obtain ⟨-, hchances⟩ := hspent (.inr rfl) id
    refine ⟨?_, ?_⟩
    · exact Nat.le_trans (Nat.le_of_eq (Nat.zero_add _)) (Phase.effortOf_le _)
    · rw [← h.chances]
      exact hchances
  · obtain ⟨hstands, hleft⟩ := h.ceasing before since' hearlier fun m hm =>
      hnone m (List.mem_append_left _ hm)
    refine ⟨hwish (.inl hstands), ?_⟩
    intro id
    obtain ⟨heffort, hchances⟩ := hspent (.inl hstands) id
    obtain ⟨hsteps, hsessions⟩ := hleft id
    refine ⟨?_, ?_⟩
    · rw [strides_snoc]
      omega
    · rw [sessions_snoc]
      omega

/-- A stop begins or returns: the drivers are what they were. -/
theorem Kept.called (h : s.Kept) {s' : Shared σ} {n : CallNote}
    (hcall : n = .stopBegan ∨ ∃ awaited, n = .stopReturned awaited)
    (hnotes : s'.notes = s.notes ++ [n]) (hdrivers : s'.connection.drivers = s.connection.drivers)
    (hnext : s'.connection.nextDriver = s.connection.nextDriver)
    (hendpoint : s'.connection.endpoint = s.connection.endpoint)
    (hwish : s.connection.stopWished = true ∨ n = .stopBegan → s'.connection.stopWished = true)
    (honce : s'.holders.Nodup) (hfew : ∀ id ∈ s'.holders, id ∈ s.holders)
    (hheld : ∀ id, (s.connection.phaseOf? id).isSome = true → id ∈ s.holders → id ∈ s'.holders)
    (hparty : ∀ id, n.party? = some id → s.connection.phaseOf? id = none) : s'.Kept := by
  have hphase : ∀ id, s'.connection.phaseOf? id = s.connection.phaseOf? id := by
    intro id
    rw [Connection.phaseOf?, hdrivers]
    rfl
  have halive : alive s'.notes = alive s.notes := by
    rw [hnotes, alive_snoc]
    obtain rfl | ⟨awaited, rfl⟩ := hcall <;> rfl
  have hbinder : binder? (s.notes ++ [n]) = binder? s.notes := by
    rw [binder?_snoc]
    obtain rfl | ⟨awaited, rfl⟩ := hcall <;> rfl
  have hattempts : ∀ id, attempts id s'.notes = attempts id s.notes := by
    intro id
    rw [hnotes, attempts_snoc]
    obtain rfl | ⟨awaited, rfl⟩ := hcall <;> rfl
  have hnothing : ∀ id, stridesOf id n = false ∧ opensOf id n = false := by
    intro id
    obtain rfl | ⟨awaited, rfl⟩ := hcall <;> exact ⟨rfl, rfl⟩
  refine ⟨honce, ?_, ?_, ?_, halive ▸ h.apart, ?_, ?_, ?_, ?_, ?_⟩
  · intro id hid
    rw [hnext]
    exact h.early id (hfew id hid)
  · intro id hid
    rw [hphase] at hid
    exact hheld id hid (h.held id hid)
  · intro id
    rw [hphase, halive]
    exact h.living id
  · intro id
    rw [hphase, hattempts]
    exact h.chances id
  · rw [hendpoint, hnotes, hbinder]
    exact h.bound
  · intro id hid
    rw [hnotes, hbinder] at hid
    rw [hphase, hnotes]
    exact (h.binder id hid).imp_right (·.snoc n)
  · refine h.ceasing_snoc hnotes hwish ?_
    intro _ id
    obtain ⟨hstrides, hopens⟩ := hnothing id
    rw [hstrides, hopens, hphase]
    exact ⟨Nat.le_of_eq (Nat.zero_add _), Nat.le_of_eq (Nat.zero_add _)⟩
  · rw [hnotes]
    refine h.published.snoc ?_
    intro _ id hid
    rw [hbinder] at hid
    obtain ⟨phase, hsome, -⟩ | hlost := h.binder id hid
    · refine .inl ⟨h.mem_alive hsome, ?_⟩
      intro heq
      cases hsome.symm.trans (hparty id heq)
    · exact .inr hlost

theorem Kept.askStop (h : s.Kept) : s.askStop.Kept := by
  have hperm : s.askStop.holders.Perm s.holders := by
    have hlast : s.askStop.holders = s.stops.reduceOption ++ s.connection.owned.toList := by
      show (s.stops ++ [s.connection.owned]).reduceOption = _
      rw [List.reduceOption_append]
      cases s.connection.owned <;> rfl
    rw [hlast]
    exact List.perm_append_comm
  refine h.called (.inl rfl) rfl rfl rfl rfl (fun _ => rfl) (hperm.nodup_iff.mpr h.once) ?_ ?_ ?_
  · exact fun id => hperm.mem_iff.mp
  · exact fun id _ => hperm.mem_iff.mpr
  · intro id hid
    cases hid

theorem Kept.confirmStop (h : s.Kept) (place : Nat) : (s.confirmStop place).Kept := by
  unfold Shared.confirmStop
  cases hplace : s.stops[place]? with
  | none => exact h
  | some awaited =>
    dsimp only
    split
    · exact h
    rename_i hgone
    have hsub : (s.stops.eraseIdx place).reduceOption.Sublist s.stops.reduceOption :=
      (List.eraseIdx_sublist _ _).filterMap _
    have hdone : ∀ id, awaited = some id → s.connection.phaseOf? id = none := by
      rintro id rfl
      refine Option.not_isSome_iff_eq_none.mp ?_
      rw [← contains_eq]
      exact hgone
    refine h.called (.inr ⟨awaited, rfl⟩) rfl rfl rfl rfl ?_ ?_ ?_ ?_ hdone
    · rintro (hwish | heq)
      · exact hwish
      · cases heq
    · exact h.once.sublist (hsub.append_left _)
    · exact fun id => (hsub.append_left _).subset (a := id)
    · intro id hlive hid
      obtain howned | hwaits := List.mem_append.mp hid
      · exact List.mem_append_left _ howned
      · rw [List.reduceOption_mem_iff] at hwaits
        obtain ⟨i, hi⟩ := List.mem_iff_getElem?.mp hwaits
        refine List.mem_append_right _ (List.reduceOption_mem_iff.mpr ?_)
        refine List.mem_eraseIdx_iff_getElem?.mpr ⟨i, ?_, hi⟩
        rintro rfl
        rw [hdone id (Option.some.inj (hplace.symm.trans hi))] at hlive
        cases hlive

theorem phaseOf?_setDriver (c : Connection σ) (id : Nat) (d : Driver) (id' : Nat) :
    (c.setDriver id d).phaseOf? id' = if id' = id then some d.phase else c.phaseOf? id' := by
  rw [Connection.phaseOf?, Connection.setDriver, Table.get?_insert]
  split <;> rfl

/-- What a start makes of a connection whose last driver is done, or was taken over by a stop. -/
theorem start_idle {c : Connection σ} (hidle : ¬ c.owned.any c.drivers.contains = true) :
    c.start = (true, Connection.setDriver
      { c with stopWished := false, owned := some c.nextDriver, nextDriver := c.nextDriver + 1 }
      c.nextDriver {}) := by
  rw [Connection.start, if_neg hidle]

/-- A start sets a driver going, whether or not others go on that calls to stop wait for. -/
theorem Kept.started (h : s.Kept)
    (hidle : ¬ s.connection.owned.any s.connection.drivers.contains = true) :
    Kept
      { s with
        connection := s.connection.start.2
        notes := s.notes ++ [.started s.connection.nextDriver] } := by
  have hphase : ∀ id, s.connection.start.2.phaseOf? id =
      if id = s.connection.nextDriver then some .ready else s.connection.phaseOf? id := by
    intro id
    rw [start_idle hidle, phaseOf?_setDriver]
    rfl
  have howned : s.connection.start.2.owned = some s.connection.nextDriver := by
    rw [start_idle hidle]
    rfl
  have hnew : s.connection.nextDriver ∉ s.stops.reduceOption :=
    fun hmem => Nat.lt_irrefl _ (h.early _ (List.mem_append_right _ hmem))
  have hlater : s.connection.nextDriver ∉ alive s.notes := by
    rw [← h.living, h.absent]
    exact Bool.false_ne_true
  refine ⟨?_, ?_, ?_, ?_, ?_, ?_, ?_, ?_, ?_, ?_⟩
  · rw [holders, howned]
    exact List.nodup_cons.mpr ⟨hnew, h.once.sublist (List.sublist_append_right _ _)⟩
  · rw [holders, howned, start_idle hidle]
    refine List.forall_mem_cons.mpr ⟨Nat.lt_succ_self _, ?_⟩
    intro id hid
    exact Nat.lt_succ_of_lt (h.early id (List.mem_append_right _ hid))
  · intro id hid
    rw [holders, howned]
    rw [hphase] at hid
    split at hid
    · rename_i hsame
      exact hsame ▸ List.mem_cons_self
    · -- the driver of the last start is done, so a stop waits for this one
      refine List.mem_cons_of_mem _ ((List.mem_append.mp (h.held id hid)).resolve_left ?_)
      intro hmem
      rw [Option.mem_toList.mp hmem, Option.any_some, contains_eq] at hidle
      exact hidle hid
  · intro id
    rw [hphase, alive_snoc, aliveAfter, List.mem_append, List.mem_singleton, ← h.living]
    by_cases hsame : id = s.connection.nextDriver
    · simp [hsame]
    · simp [hsame]
  · rw [alive_snoc, aliveAfter]
    exact h.apart.append (List.nodup_singleton _) (List.disjoint_singleton.mpr hlater)
  · intro id
    rw [hphase, attempts_snoc, attemptAfter, ← h.chances]
    split
    · rename_i hsame
      rw [hsame, h.absent]
      rfl
    · rfl
  · rw [start_idle hidle, binder?_snoc]
    exact h.bound
  · intro id hid
    rw [binder?_snoc] at hid
    obtain ⟨phase, hsome, hin⟩ | hlost := h.binder id hid
    · refine .inl ⟨phase, ?_, hin⟩
      rw [hphase, if_neg, hsome]
      rintro rfl
      cases hsome.symm.trans h.absent
    · exact .inr (hlost.snoc _)
  · intro before since hsplit hnone
    obtain ⟨heq, -⟩ | ⟨since', rfl, -⟩ := split_stop hsplit
    · cases heq
    · exact absurd trivial (hnone _ (List.mem_append_right _ List.mem_cons_self))
  · exact h.published.snoc fun hdrops => hdrops.elim

theorem Kept.start (h : s.Kept) : s.start.Kept := by
  have hshape : s.start =
      { s with
        connection := s.connection.start.2
        notes := s.notes ++ if s.connection.start.1 then [.started s.connection.nextDriver]
          else [] } := rfl
  by_cases hrunning : s.connection.owned.any s.connection.drivers.contains = true
  · have hstart : s.connection.start = (false, s.connection) := by
      rw [Connection.start, if_pos hrunning]
    rw [hshape, hstart]
    simp only [Bool.false_eq_true, if_false, List.append_nil]
    exact h
  · have hbegun : s.connection.start.1 = true := by rw [start_idle hrunning]
    rw [hshape, hbegun, if_pos rfl]
    exact h.started hrunning

/-! ### Drivers -/

section
variable {id : Nat} {phase : Phase} {es : List LifeEvent} {next : Option Phase}
  {act : Connection.Effects × Connection σ}

theorem strode_notes (hdoes : s.connection.Does id es next act) :
    (s.strode id act).notes = s.notes ++ [.strode id es next.isNone] := by
  have hdone : (!(act.2.drivers.contains id)) = next.isNone := by
    rw [contains_eq, hdoes.phase, Option.not_isSome]
  rw [Shared.strode, hdoes.events, hdone]

theorem Kept.strode_alive (h : s.Kept) (hphase : s.connection.phaseOf? id = some phase)
    (hdoes : s.connection.Does id es next act) (other : Nat) :
    (act.2.phaseOf? other).isSome = true ↔
      other ∈ alive (s.notes ++ [.strode id es next.isNone]) := by
  rw [alive_snoc, hdoes.phaseOf?_eq]
  by_cases hsame : other = id
  · rw [if_pos hsame, hsame]
    cases next with
    | none => exact iff_of_false Bool.false_ne_true fun hmem => by simp [aliveAfter] at hmem
    | some phase' => exact iff_of_true rfl (h.mem_alive hphase)
  · rw [if_neg hsame, h.living]
    cases next with
    | none => simp [aliveAfter, hsame]
    | some phase' => exact Iff.rfl

/-- The driver of the session that goes on is in it, or it died when that began. -/
theorem Kept.strode_binder (h : s.Kept) (hphase : s.connection.phaseOf? id = some phase)
    (hstride : phase.Stride s.connection.stopWished es next)
    (hdoes : s.connection.Does id es next act) (x : Nat)
    (hx : binderAfter (binder? s.notes) (.strode id es next.isNone) = some x) :
    (∃ phase', act.2.phaseOf? x = some phase' ∧ phase'.InSession) ∨
      Lost x (s.notes ++ [.strode id es next.isNone]) := by
  rw [binderAfter] at hx
  rw [hdoes.phaseOf?_eq]
  split at hx
  · rename_i hopen
    rw [if_pos (Option.some.inj hx).symm, ← Option.some.inj hx]
    obtain ⟨-, rfl | hin⟩ := hstride.enters hopen
    · exact .inr ⟨es, List.mem_append_right _ List.mem_cons_self, hopen⟩
    · exact .inl hin
  split at hx
  · cases hx
  rename_i hend
  obtain ⟨phase', hsome, hin⟩ | hlost := h.binder x hx
  · left
    split
    · rename_i hsame
      rw [hsame, hphase] at hsome
      obtain ⟨phase'', hnext, hin', -⟩ := hstride.stays (Option.some.inj hsome ▸ hin) hend
      exact ⟨phase'', hnext, hin'⟩
    · exact ⟨phase', hsome, hin⟩
  · exact .inr (hlost.snoc _)

/-- A driver does not publish that there is no connection in a session of its own. -/
theorem Kept.strode_published (h : s.Kept) (hphase : s.connection.phaseOf? id = some phase)
    (hstride : phase.Stride s.connection.stopWished es next)
    (hdrops : .published .disconnected ∈ es) (x : Nat)
    (hx : binderAfter (binder? s.notes) (.strode id es next.isNone) = some x) :
    x ∈ alive s.notes ∧ some id ≠ some x ∨ Lost x s.notes := by
  rw [binderAfter] at hx
  split at hx
  · rename_i hopen
    exact absurd hdrops (hstride.enters hopen).1
  split at hx
  · cases hx
  rename_i hend
  obtain ⟨phase', hsome, hin⟩ | hlost := h.binder x hx
  · refine .inl ⟨h.mem_alive hsome, ?_⟩
    intro heq
    obtain rfl : id = x := Option.some.inj heq
    rw [hphase] at hsome
    obtain ⟨-, -, -, hquiet⟩ := hstride.stays (Option.some.inj hsome ▸ hin) hend
    exact hquiet hdrops
  · exact .inr hlost

/-- A step is paid for out of what was left to its driver when somebody wished to stop. -/
theorem strode_spent (hphase : s.connection.phaseOf? id = some phase)
    (hstride : phase.Stride true es next) (hdoes : s.connection.Does id es next act) (done : Bool)
    (other : Nat) :
    (stridesOf other (.strode id es done)).toNat + Phase.effortOf (act.2.phaseOf? other) ≤
        Phase.effortOf (s.connection.phaseOf? other) ∧
      (opensOf other (.strode id es done)).toNat + Phase.chancesOf (act.2.phaseOf? other) ≤
        Phase.chancesOf (s.connection.phaseOf? other) := by
  rw [hdoes.phaseOf?_eq]
  by_cases hsame : other = id
  · have hleft := hstride.effort_lt
    have hchances := hstride.chances_le
    rw [if_pos hsame, hsame, hphase]
    simp only [stridesOf, opensOf, decide_true, Bool.true_and]
    exact ⟨by rw [Nat.add_comm]; exact hleft, hchances⟩
  · rw [if_neg hsame]
    simp [stridesOf, opensOf, Ne.symm hsame]

theorem Kept.strode (h : s.Kept) (hphase : s.connection.phaseOf? id = some phase)
    (hstride : phase.Stride s.connection.stopWished es next)
    (hdoes : s.connection.Does id es next act) : (s.strode id act).Kept := by
  have hholders : (s.strode id act).holders = s.holders := by
    rw [holders, holders]
    exact congrArg (·.toList ++ _) hdoes.owned
  have hnotes := strode_notes hdoes
  refine ⟨hholders ▸ h.once, ?_, ?_, ?_, ?_, ?_, ?_, ?_, ?_, ?_⟩
  · rw [hholders]
    intro x hx
    show x < act.2.nextDriver
    rw [hdoes.nextDriver]
    exact h.early x hx
  · intro other hother
    rw [hholders]
    refine h.held other ?_
    rw [show (s.strode id act).connection = act.2 from rfl, hdoes.phaseOf?_eq] at hother
    split at hother
    · rename_i hsame
      rw [hsame, hphase]
      rfl
    · exact hother
  · rw [hnotes]
    exact h.strode_alive hphase hdoes
  · rw [hnotes, alive_snoc]
    cases next with
    | none => exact h.apart.filter _
    | some phase' => exact h.apart
  · intro other
    show Phase.chancesOf (act.2.phaseOf? other) = _
    rw [hnotes, attempts_snoc, hdoes.phaseOf?_eq, attemptAfter]
    by_cases hsame : other = id
    · rw [if_pos hsame, if_pos hsame.symm]
      exact hstride.chances_eq
    · rw [if_neg hsame, if_neg (Ne.symm hsame)]
      exact h.chances other
  · show act.2.endpoint.session.isSome = _
    rw [hnotes, binder?_snoc, hdoes.bound, Connection.boundAfter, binderAfter, h.bound]
    split
    · rfl
    · split <;> rfl
  · rw [hnotes]
    intro x hx
    rw [binder?_snoc] at hx
    exact h.strode_binder hphase hstride hdoes x hx
  · refine h.ceasing_snoc hnotes ?_ ?_
    · rintro (hwish | heq)
      · exact hdoes.wish.trans hwish
      · cases heq
    · rintro (hwish | heq)
      · exact strode_spent hphase (hwish ▸ hstride) hdoes _
      · cases heq
  · rw [hnotes]
    refine h.published.snoc ?_
    intro hdrops x hx
    rw [binder?_snoc] at hx
    exact h.strode_published hphase hstride hdrops x hx

end

theorem Kept.lose (h : s.Kept) (id : Nat) (why : DisconnectReason) : (s.lose id why).Kept := by
  unfold Shared.lose
  split
  · rename_i keepalive setbacks hd
    have hphase : s.connection.phaseOf? id = some (.running keepalive) := by
      rw [Connection.phaseOf?, hd, Option.map_some]
    exact h.strode hphase (.closes keepalive why) (Connection.beginClosing_does _ _ _ _ _)
  · exact h

/-! ### Laws -/

theorem Kept.few (h : s.Kept) : (alive s.notes).length ≤ s.stops.length + 1 := by
  have hsubset : alive s.notes ⊆ s.holders := fun id hid => h.held id ((h.living id).mpr hid)
  have hholders : s.holders.length ≤ s.stops.length + 1 := by
    have howned : s.connection.owned.toList.length ≤ 1 := by
      cases s.connection.owned with
      | none => exact Nat.zero_le 1
      | some id => exact Nat.le_refl 1
    have hstops := List.reduceOption_length_le s.stops
    rw [holders, List.length_append]
    omega
  exact Nat.le_trans (h.apart.subperm hsubset).length_le hholders

variable [ValueTree σ]

theorem Kept.lawful (h : s.Kept) : s.Lawful where
  held := by
    intro id hid
    refine (List.mem_append.mp (h.held id ((h.living id).mpr hid))).imp ?_ ?_
    · exact Option.mem_toList.mp
    · exact List.reduceOption_mem_iff.mp
  once := h.once
  few := h.few
  single := alive_le_one
  living := fun id => by
    rw [contains_eq]
    exact h.living id
  ceasing := by
    intro before since hsplit hnone id
    obtain ⟨hwish, hspent⟩ := h.ceasing before since hsplit hnone
    obtain ⟨hsteps, hsessions⟩ := hspent id
    refine ⟨Nat.le_trans (Nat.le_add_right _ _) hsteps,
      Nat.le_trans (Nat.le_add_right _ _) hsessions, ?_⟩
    intro hlive
    have hsome := (h.living id).mpr hlive
    refine ⟨?_, Connection.step?_of_wish hwish (by rw [contains_eq]; exact hsome)⟩
    obtain ⟨phase, hphase⟩ := Option.isSome_iff_exists.mp hsome
    have hpos : 0 < Phase.effortOf (s.connection.phaseOf? id) := by
      rw [hphase]
      exact phase.effort_pos
    omega
  bound := h.bound
  published := h.published

/-! ## Runs -/

theorem Kept.after (h : s.Kept) (m : Move σ) : (s.after m).Kept := by
  cases m with
  | start => exact h.start
  | askStop => exact h.askStop
  | confirmStop place => exact h.confirmStop place
  | lose id why => exact h.lose id why
  | foresee policy outcomes => exact h.same _ rfl rfl rfl rfl rfl
  | touch act =>
    show (s.touch (act s.connection.endpoint)).Kept
    unfold Shared.touch
    split
    · rename_i hsame
      exact h.same _ rfl rfl rfl rfl hsame
    · exact h
  | drive id stopFirst =>
    unfold Shared.after
    dsimp only
    cases hact : s.connection.step? id stopFirst with
    | none => exact h
    | some act =>
      obtain ⟨phase, es, next, hphase, hstride, hdoes⟩ := Connection.step?_does hact
      exact h.strode hphase hstride hdoes

theorem Kept.ofMoves (h : s.Kept) (moves : List (Move σ)) : (s.ofMoves moves).Kept := by
  induction moves generalizing s with
  | nil => exact h
  | cons m moves ih => exact ih (h.after m)

/-- Whatever is called, in whatever order. -/
theorem calls_lawful (config : LinkConfig) (tree : σ) (asks serves : Bool) (horizon : Option Nat)
    (moves : List (Move σ)) : ((ofSettings config tree asks serves horizon).ofMoves moves).Lawful :=
  ((Kept.ofSettings config tree asks serves horizon).ofMoves moves).lawful

/-! ## Calls that clash -/

/-- A client that waits five milliseconds after a setback, with a clock that may have an end. -/
def client (horizon : Option Nat) : Shared (MemoryTree Binding) :=
  (ofSettings {} {} true false horizon).foresee (.backoff ⟨5, 5, 0⟩) []

/-- A start comes while a stop waits for the driver. -/
def startedTwice : List (Move (MemoryTree Binding)) := [.start, .askStop, .start]

/-- The same in a session that is lost then: the driver that was to stop connects again. -/
def wentOn : List (Move (MemoryTree Binding)) :=
  [.start, .drive 0 false, .drive 0 false, .askStop, .start, .touch (·.hangUp), .drive 0 false,
    .drive 0 false, .touch (·.advance 5), .drive 0 false, .drive 0 false, .drive 0 false]

/-- A stop comes while another one waits for the driver, and returns at once. -/
def stoppedTwice : List (Move (MemoryTree Binding)) :=
  [.start, .drive 0 false, .drive 0 false, .askStop, .askStop, .confirmStop 1]

/-- One stop after one start, when the driver has died of the timer that it could not set. -/
def died : List (Move (MemoryTree Binding)) :=
  [.start, .drive 0 false, .drive 0 false, .askStop, .confirmStop 0]

/-- It is published that there is no connection, and the peer is bound to one. -/
def Misled (s : Shared (MemoryTree Binding)) : Prop :=
  s.connection.state = .disconnected ∧ s.connection.endpoint.session.isSome = true

theorem calls_clash :
    alive ((client none).ofMoves startedTwice).notes = [0, 1] ∧
      sessions 0 ((client none).ofMoves wentOn).notes = 2 ∧
      ((client none).ofMoves stoppedTwice).Misled ∧ ((client (some 1000)).ofMoves died).Misled := by
  unfold Misled
  decide +kernel

end Shared
end PeerLink
