import PeerLink.Proofs.Waiting

/-! # Bulletins

A registry over a tree in memory, its tasks, and what it sends. Requests, changes, tasks and the
ends of connections come in any order; a task is run whole.

* `Bulletin`, `Bulletin.after`: what can happen, and what comes of it.
* `Registry.Tracks`: the subscriptions that there are, and what waits for them, are those that the
  log of all that happened tells of.
* `Bulletin.Faithful`: while a number is bound, what was sent for it and what waits are the values
  that its path has had; after that nothing of them is sent.
* `Bulletin.run_faithful`: that is so after every run.
-/

namespace PeerLink
set_option autoImplicit false

open Happening

/-! ## What happens in a step -/

namespace Registry

def bindNews (r : Registry) (t : MemoryTree Binding) (p : SubscribePath) : List Happening :=
  if !Path.valid p.path || r.outlet.isNone then []
  else [.bound p.sid p.path p.qos (t.readValue p.path)]

def bindAllNews (now : Timestamp) :
    Registry → MemoryTree Binding → List SubscribePath → List Happening
  | _, _, [] => []
  | r, t, p :: ps =>
    r.bindNews t p ++ bindAllNews now (r.bind now t p).2.1 (r.bind now t p).2.2 ps

def applyNews (now : Timestamp) (r : Registry) (t : MemoryTree Binding) :
    RegistryOp → List Happening
  | .subscribe paths => r.bindAllNews now t paths
  | .unsubscribe sids => [.released sids]

def applyAllNews (now : Timestamp) :
    Registry → MemoryTree Binding → List RegistryOp → List Happening
  | _, _, [] => []
  | r, t, op :: ops =>
    r.applyNews now t op ++ applyAllNews now (r.apply now t op).2.1 (r.apply now t op).2.2 ops

def flushNews (r : Registry) : List Happening :=
  if r.flush.1.isEmpty then [] else [.sent r.queued]

def runNews (now : Timestamp) (r : Registry) (t : MemoryTree Binding) :
    RegistryTask → List Happening
  | .drain => ({ r with ops := [] } : Registry).applyAllNews now t r.ops
  | .flush => r.flushNews

def message (us : List SubscriptionUpdate) : Message :=
  .response (.opened Response.updateRid (us.map fun u => u.toJson.sorted))

end Registry

def RegistryEffect.message? : RegistryEffect → Option Message
  | send o => some o.message
  | schedule _ => none

def RegistryEffect.task? : RegistryEffect → Option RegistryTask
  | send _ => none
  | schedule t => some t

structure Bulletin where
  registry : Registry := {}
  tree : MemoryTree Binding
  tasks : List RegistryTask := []
  outbox : List Message := []
  log : List Happening := []

namespace Bulletin

/-- A tree that nobody watches. -/
def start (values : Table String ValueUpdate) (actions : Table String Action) : Bulletin :=
  { tree := { values, actions } }

/-- What can happen. Tasks are chosen by their place among those that wait. -/
inductive Move
  | subscribe (paths : List SubscribePath)
  | unsubscribe (sids : List Nat)
  | setValue (now : Timestamp) (path : String) (v : Json.Value)
  | run (now : Timestamp) (place : Nat)
  | disconnect
  | connect (link : Nat)

/-- The registry has acted, and `hs` has happened. -/
def record (b : Bulletin) (step : Registry.Effects × Registry × MemoryTree Binding)
    (hs : List Happening) : Bulletin :=
  { registry := step.2.1
    tree := step.2.2
    tasks := b.tasks ++ step.1.filterMap RegistryEffect.task?
    outbox := b.outbox ++ step.1.filterMap RegistryEffect.message?
    log := b.log ++ hs }

def enqueue (b : Bulletin) (op : RegistryOp) : Bulletin :=
  let (es, r) := b.registry.enqueue op
  b.record (es, r, b.tree) []

def after (b : Bulletin) : Move → Bulletin
  | .subscribe paths => b.enqueue (.subscribe paths)
  | .unsubscribe sids => b.enqueue (.unsubscribe sids)
  | .setValue now path v =>
    let (notices, tree) := b.tree.setValue now path v
    let (es, r) := b.registry.onChanges notices
    b.record (es, r, tree) [.changed path { value := v, time := now }]
  | .run now place =>
    match b.tasks[place]? with
    | none => b
    | some task =>
      { b with tasks := b.tasks.eraseIdx place }.record (b.registry.run now b.tree task)
        (b.registry.runNews now b.tree task)
  | .disconnect =>
    let (r, tree) := b.registry.closeAll b.tree
    b.record ([], r, tree) [.cut]
  | .connect link => b.record ([], b.registry.connect link, b.tree) []

def run (b : Bulletin) (ms : List Move) : Bulletin := ms.foldl after b

end Bulletin

/-! ## The log and the registry -/

namespace Registry

/-- The log tells of the subscriptions that there are, and of what waits for them. -/
structure Tracks (r : Registry) (t : MemoryTree Binding) (log : List Happening) : Prop where
  watching : r.Watching t
  sole : Sole t
  writer : ∀ o, r.outlet = some o → o.isOpen = true
  linked : ∀ sid e, r.entries.get? sid = some e → r.outlet.isSome = true
  lives : ∀ sid, (life sid log).map (fun l => (l.path, l.qos)) =
    (r.entries.get? sid).map (·.asked)
  kept : ∀ sid l, life sid log = some l → Kept l.qos l.values l.sent (r.waiting sid)
  fair : Each Fair log

namespace Tracks
variable {r r' : Registry} {t t' : MemoryTree Binding} {log : List Happening}

/-- Other fields of a registry do not matter, nor do values of a tree. -/
theorem congr (h : r.Tracks t log) (hentries : r'.entries = r.entries)
    (hqueued : r'.queued = r.queued) (htoken : r'.nextToken = r.nextToken)
    (hwriter : ∀ o, r'.outlet = some o → o.isOpen = true)
    (hlinked : r.outlet.isSome = true → r'.outlet.isSome = true) : r'.Tracks t log where
  watching := by
    obtain ⟨h1, h2, h3, h4, h5, h6, h7, h8, h9⟩ := h.watching
    refine ⟨?_, ?_, ?_, ?_, ?_, ?_, ?_, h8, h9⟩ <;> simp only [hentries, hqueued, htoken] <;>
      assumption
  sole := h.sole
  writer := hwriter
  linked := by
    rw [hentries]
    exact fun sid e he => hlinked (h.linked sid e he)
  lives := by
    rw [hentries]
    exact h.lives
  kept := by
    intro sid l hl
    rw [waiting, hqueued]
    exact h.kept sid l hl
  fair := h.fair

theorem life_eq_none (h : r.Tracks t log) {sid : Nat} :
    life sid log = none ↔ r.entries.get? sid = none := by
  have hlives := congrArg Option.isNone (h.lives sid)
  rw [Option.isNone_map, Option.isNone_map] at hlives
  rw [← Option.isNone_iff_eq_none, ← Option.isNone_iff_eq_none, hlives]

theorem entry_of_life (h : r.Tracks t log) {sid : Nat} {l : Life} (hl : life sid log = some l) :
    ∃ e, r.entries.get? sid = some e ∧ e.path = l.path ∧ e.qos = l.qos := by
  have hlives := h.lives sid
  rw [hl, Option.map_some] at hlives
  obtain ⟨e, he, hasked⟩ := Option.map_eq_some_iff.mp hlives.symm
  exact ⟨e, he, congrArg Prod.fst hasked, congrArg Prod.snd hasked⟩

theorem fair_snoc (h : r.Tracks t log) {e : Happening}
    (hsent : e.batch? = none ∨ e = .sent r.queued) : Each Fair (log ++ [e]) := by
  refine h.fair.snoc ⟨fun us he u hu => ?_, fun sid l _ hl => (h.kept sid l hl).sent_of_values⟩
  have hus : us = r.queued := by
    obtain hnone | hqueued := hsent
    · rw [he] at hnone
      cases hnone
    · exact Happening.sent.inj (he.symm.trans hqueued)
  have hmem := h.watching.queued u (hus ▸ hu)
  rw [Option.isSome_iff_ne_none, ne_eq, h.life_eq_none, Table.get?_eq_none]
  exact not_not_intro hmem

theorem bind (h : r.Tracks t log) (now : Timestamp) (p : SubscribePath) :
    (r.bind now t p).2.1.Tracks (r.bind now t p).2.2 (log ++ r.bindNews t p) ∧
      ∀ e ∈ (r.bind now t p).1, e = .schedule .flush := by
  by_cases hguard : (!Path.valid p.path || r.outlet.isNone) = true
  · rw [bindNews, if_pos hguard, List.append_nil, Registry.bind, if_pos hguard]
    exact ⟨h, fun e he => absurd he List.not_mem_nil⟩
  · obtain ⟨hvalid, hout⟩ : Path.valid p.path = true ∧ r.outlet.isSome = true := by
      simpa [Option.isSome_iff_ne_none] using hguard
    obtain ⟨hbound, heffects⟩ := bind_rebound h.watching h.sole now hvalid hout
    refine ⟨?_, heffects⟩
    rw [bindNews, if_neg hguard]
    generalize r.bind now t p = q at hbound ⊢
    obtain ⟨es, r', t'⟩ := q
    dsimp only at hbound ⊢
    refine ⟨hbound.watching, hbound.sole, hbound.outlet ▸ h.writer,
      fun _ _ _ => hbound.outlet ▸ hout, fun sid => ?_, fun sid l hl => ?_, h.fair_snoc (.inl rfl)⟩
    · rw [life_snoc, Life.after, hbound.asked]
      by_cases hsid : p.sid = sid
      · rw [if_pos hsid, if_pos hsid.symm]
        rfl
      · rw [if_neg hsid, if_neg (Ne.symm hsid)]
        exact h.lives sid
    · -- Whatever waited for the number is gone; the first value of its path waits instead.
      rw [life_snoc, Life.after] at hl
      rw [hbound.waiting]
      by_cases hsid : p.sid = sid
      · rw [if_pos hsid] at hl
        cases hl
        rw [if_pos hsid.symm]
        exact .start p.qos _
      · rw [if_neg hsid] at hl
        rw [if_neg (Ne.symm hsid)]
        exact h.kept sid l hl

theorem release (h : r.Tracks t log) (sids : List Nat) :
    (r.release t sids).1.Tracks (r.release t sids).2 (log ++ [.released sids]) := by
  obtain ⟨hwatching, hr⟩ := release_spec h.watching sids
  have hwaiting := release_waiting h.watching sids
  refine ⟨hwatching, h.sole.release r sids, hr.outlet ▸ h.writer, fun sid e he => ?_, fun sid => ?_,
    fun sid l hl => ?_, h.fair_snoc (.inl rfl)⟩
  · rw [hr.get] at he
    rw [hr.outlet]
    split at he
    · cases he
    · exact h.linked sid e he
  · rw [life_snoc, Life.after, hr.get]
    split
    · rfl
    · exact h.lives sid
  · rw [life_snoc, Life.after] at hl
    rw [hwaiting]
    split at hl
    · cases hl
    · rename_i hsid
      rw [if_neg hsid]
      exact h.kept sid l hl

theorem closeAll (h : r.Tracks t log) :
    (r.closeAll t).1.Tracks (r.closeAll t).2 (log ++ [.cut]) where
  watching := h.watching.closeAll
  sole := h.sole.closeAll r
  writer := nofun
  linked := fun _ _ he => absurd he Table.get?_empty_ne
  lives := by
    intro sid
    rw [life_snoc]
    rfl
  kept := by
    intro sid l hl
    rw [life_snoc] at hl
    cases hl
  fair := h.fair_snoc (.inl rfl)

theorem change (h : r.Tracks t log) (now : Timestamp) (path : String) (v : Json.Value) :
    (r.onChanges (t.setValue now path v).1).2.Tracks (t.setValue now path v).2
        (log ++ [.changed path { value := v, time := now }]) ∧
      ∀ e ∈ (r.onChanges (t.setValue now path v).1).1, e = .schedule .flush := by
  have hu : ∀ n ∈ (t.setValue now path v).1, n.update = { value := v, time := now } := by
    intro n hn
    obtain ⟨w, -, rfl⟩ := List.mem_map.mp hn
    rfl
  obtain ⟨hschedules, hwatching, htold⟩ := onChanges_spec _ r h.watching hu
  have hwaiting := waiting_setValue h.watching h.sole now path v
  have hasked : ∀ sid, ((r.onChanges (t.setValue now path v).1).2.entries.get? sid).map (·.asked) =
      (r.entries.get? sid).map (·.asked) := by
    intro sid
    have hbare := congrArg (Option.map RegistryEntry.asked) (htold.bare sid)
    rw [Option.map_map, Option.map_map] at hbare
    exact hbare
  refine ⟨⟨hwatching.congr rfl rfl, h.sole, hschedules.outlet ▸ h.writer, fun sid e he => ?_,
    fun sid => ?_, fun sid l hl => ?_, h.fair_snoc (.inl rfl)⟩, hschedules.only⟩
  · obtain ⟨e0, he0, -⟩ := htold.entry he
    rw [hschedules.outlet]
    exact h.linked sid e0 he0
  · rw [life_snoc, Life.after, hasked, ← h.lives, Option.map_map]
    refine congrFun (congrArg Option.map (funext fun l => ?_)) (life sid log)
    dsimp only [Function.comp_apply]
    split <;> rfl
  · rw [life_snoc, Life.after] at hl
    obtain ⟨l0, hl0, rfl⟩ := Option.map_eq_some_iff.mp hl
    obtain ⟨e, he, hpath, hqos⟩ := h.entry_of_life hl0
    rw [hwaiting, he]
    dsimp only
    rw [hpath, hqos]
    split
    · exact (h.kept sid l0 hl0).push _
    · exact h.kept sid l0 hl0

/-- What waits has somebody it waits for, so there is a message with it. -/
theorem flush_cases (h : r.Tracks t log) :
    r.queued = [] ∧ r.flush.1 = [] ∨
      ∃ o, r.flush.1 = [.send o] ∧ o.message = message r.queued := by
  rw [flush]
  cases hq : r.queued with
  | nil => exact .inl ⟨rfl, rfl⟩
  | cons u us =>
    right
    have hmem := h.watching.queued u (hq ▸ List.mem_cons_self)
    obtain ⟨e, he⟩ := Option.isSome_iff_exists.mp (Table.mem_keys.mp hmem)
    obtain ⟨o, ho⟩ := Option.isSome_iff_exists.mp (h.linked _ e he)
    refine ⟨⟨o.link, message (u :: us)⟩, ?_, rfl⟩
    simp only [List.map_cons, List.isEmpty_cons, Bool.false_eq_true, if_false, ho, sendTo,
      Outlet.send, h.writer o ho, if_true]
    rfl

theorem flush (h : r.Tracks t log) : r.flush.2.Tracks t (log ++ r.flushNews) := by
  have hempty : ∀ sid, r.flush.2.waiting sid = [] := fun _ => rfl
  have hwatching : r.flush.2.Watching t :=
    { distinct := h.watching.distinct
      queued := fun _ hu => absurd hu List.not_mem_nil
      single := fun _ _ _ _ => Nat.zero_le 1
      tokens := h.watching.tokens
      watched := h.watching.watched
      faithful := h.watching.faithful
      listeners := h.watching.listeners
      ids := h.watching.ids
      next := h.watching.next }
  rw [flushNews]
  obtain ⟨hq, hnone⟩ | ⟨o, hsome, -⟩ := h.flush_cases
  · rw [hnone, List.isEmpty_nil, if_pos rfl, List.append_nil]
    exact h.congr rfl hq.symm rfl h.writer id
  · rw [hsome, List.isEmpty_cons, if_neg Bool.false_ne_true]
    refine ⟨hwatching, h.sole, h.writer, h.linked, fun sid => ?_, fun sid l hl => ?_,
      h.fair_snoc (.inr rfl)⟩
    · rw [life_snoc, Life.after, Option.map_map]
      exact h.lives sid
    · rw [life_snoc, Life.after] at hl
      obtain ⟨l0, hl0, rfl⟩ := Option.map_eq_some_iff.mp hl
      rw [hempty]
      exact (h.kept sid l0 hl0).flush

/-! ### Batches -/

theorem bindAll (now : Timestamp) : ∀ (ps : List SubscribePath) {r : Registry}
    {t : MemoryTree Binding} {log : List Happening}, r.Tracks t log →
    (r.bindAll now t ps).2.1.Tracks (r.bindAll now t ps).2.2 (log ++ r.bindAllNews now t ps) ∧
      ∀ e ∈ (r.bindAll now t ps).1, e = .schedule .flush
  | [], _, _, _, h => by
    rw [Registry.bindAll, bindAllNews, List.append_nil]
    exact ⟨h, fun e he => absurd he List.not_mem_nil⟩
  | p :: ps, r, t, log, h => by
    obtain ⟨h1, heffects1⟩ := h.bind now p
    obtain ⟨h2, heffects2⟩ := bindAll now ps h1
    rw [Registry.bindAll, bindAllNews, ← List.append_assoc]
    exact ⟨h2, fun e he => (List.mem_append.mp he).elim (heffects1 e) (heffects2 e)⟩

theorem apply (h : r.Tracks t log) (now : Timestamp) (op : RegistryOp) :
    (r.apply now t op).2.1.Tracks (r.apply now t op).2.2 (log ++ r.applyNews now t op) ∧
      ∀ e ∈ (r.apply now t op).1, e = .schedule .flush := by
  cases op with
  | subscribe paths => exact bindAll now paths h
  | unsubscribe sids => exact ⟨h.release sids, fun e he => absurd he List.not_mem_nil⟩

theorem applyAll (now : Timestamp) : ∀ (ops : List RegistryOp) {r : Registry}
    {t : MemoryTree Binding} {log : List Happening}, r.Tracks t log →
    (r.applyAll now t ops).2.1.Tracks (r.applyAll now t ops).2.2
        (log ++ r.applyAllNews now t ops) ∧
      ∀ e ∈ (r.applyAll now t ops).1, e = .schedule .flush
  | [], _, _, _, h => by
    rw [Registry.applyAll, applyAllNews, List.append_nil]
    exact ⟨h, fun e he => absurd he List.not_mem_nil⟩
  | op :: ops, r, t, log, h => by
    obtain ⟨h1, heffects1⟩ := h.apply now op
    obtain ⟨h2, heffects2⟩ := applyAll now ops h1
    rw [Registry.applyAll, applyAllNews, ← List.append_assoc]
    exact ⟨h2, fun e he => (List.mem_append.mp he).elim (heffects1 e) (heffects2 e)⟩

theorem drain (h : r.Tracks t log) (now : Timestamp) :
    (r.drain now t).2.1.Tracks (r.drain now t).2.2 (log ++ r.runNews now t .drain) ∧
      ∀ e ∈ (r.drain now t).1, e = .schedule .flush := by
  have hstart : ({ r with ops := [] } : Registry).Tracks t log := h.congr rfl rfl rfl h.writer id
  obtain ⟨hend, heffects⟩ := applyAll now r.ops hstart
  rw [Registry.drain]
  generalize Registry.applyAll now { r with ops := [] } t r.ops = q at hend heffects ⊢
  obtain ⟨es, r', t'⟩ := q
  exact ⟨hend.congr rfl rfl rfl hend.writer id, heffects⟩

end Tracks

theorem batches_bindNews (r : Registry) (t : MemoryTree Binding) (p : SubscribePath) :
    batches (r.bindNews t p) = [] := by
  rw [bindNews]
  split <;> rfl

theorem batches_bindAllNews (now : Timestamp) : ∀ (ps : List SubscribePath) (r : Registry)
    (t : MemoryTree Binding), batches (r.bindAllNews now t ps) = []
  | [], _, _ => rfl
  | p :: ps, r, t => by
    rw [bindAllNews, batches_append, batches_bindNews, batches_bindAllNews now ps, List.append_nil]

theorem batches_applyAllNews (now : Timestamp) : ∀ (ops : List RegistryOp) (r : Registry)
    (t : MemoryTree Binding), batches (r.applyAllNews now t ops) = []
  | [], _, _ => rfl
  | op :: ops, r, t => by
    have hop : batches (r.applyNews now t op) = [] := by
      cases op with
      | subscribe paths => exact batches_bindAllNews now paths r t
      | unsubscribe sids => rfl
    rw [applyAllNews, batches_append, hop, batches_applyAllNews now ops, List.append_nil]

end Registry

/-! ## Runs -/

namespace Bulletin
variable {b : Bulletin}

structure Keeps (b : Bulletin) : Prop where
  tracks : b.registry.Tracks b.tree b.log
  outbox : b.outbox = (batches b.log).map Registry.message

theorem Keeps.start (values : Table String ValueUpdate) (actions : Table String Action) :
    (start values actions).Keeps where
  tracks :=
    { watching :=
        { distinct := Table.distinct_nil
          queued := nofun
          single := fun _ _ he => absurd he Table.get?_empty_ne
          tokens := fun _ _ he => absurd he Table.get?_empty_ne
          watched := fun _ _ he => absurd he Table.get?_empty_ne
          faithful := nofun
          listeners := nofun
          ids := List.nodup_nil
          next := nofun }
      sole := List.nodup_nil
      writer := nofun
      linked := fun _ _ he => absurd he Table.get?_empty_ne
      lives := fun _ => rfl
      kept := nofun
      fair := .nil }
  outbox := rfl

theorem Keeps.record (h : b.Keeps) {step : Registry.Effects × Registry × MemoryTree Binding}
    {hs : List Happening} (htracks : step.2.1.Tracks step.2.2 (b.log ++ hs))
    (houtbox : step.1.filterMap RegistryEffect.message? = (batches hs).map Registry.message) :
    (b.record step hs).Keeps where
  tracks := htracks
  outbox := by
    rw [Bulletin.record, batches_append, List.map_append, ← h.outbox, houtbox]

/-- A step that sends nothing. -/
theorem Keeps.record_silent (h : b.Keeps)
    {step : Registry.Effects × Registry × MemoryTree Binding} {hs : List Happening}
    (htracks : step.2.1.Tracks step.2.2 (b.log ++ hs)) (hbatches : batches hs = [])
    (heffects : ∀ e ∈ step.1, ∃ task, e = .schedule task) : (b.record step hs).Keeps := by
  refine h.record htracks ?_
  rw [hbatches, List.map_nil, List.filterMap_eq_nil_iff]
  intro e he
  obtain ⟨task, rfl⟩ := heffects e he
  rfl

theorem Keeps.enqueue (h : b.Keeps) (op : RegistryOp) : (b.enqueue op).Keeps := by
  refine h.record_silent ?_ (rfl : batches [] = []) fun e he => ?_
  · rw [List.append_nil]
    exact h.tracks.congr rfl rfl rfl h.tracks.writer id
  · dsimp only at he
    split at he
    · cases he
    · exact ⟨.drain, List.mem_singleton.mp he⟩

theorem Keeps.run_task (h : b.Keeps) (now : Timestamp) (task : RegistryTask)
    (tasks : List RegistryTask) :
    ({ b with tasks }.record (b.registry.run now b.tree task)
      (b.registry.runNews now b.tree task)).Keeps := by
  have hsame : ({ b with tasks } : Bulletin).Keeps := ⟨h.tracks, h.outbox⟩
  cases task with
  | drain =>
    obtain ⟨htracks, heffects⟩ := h.tracks.drain now
    exact hsame.record_silent htracks (Registry.batches_applyAllNews now _ _ _) fun e he =>
      ⟨.flush, heffects e he⟩
  | flush =>
    refine hsame.record h.tracks.flush ?_
    rw [Registry.run, Registry.runNews, Registry.flushNews]
    obtain ⟨-, hnone⟩ | ⟨o, hsome, hmessage⟩ := h.tracks.flush_cases
    · simp only [hnone]
      rfl
    · simp only [hsome]
      exact congrArg ([·]) hmessage

theorem Keeps.move (h : b.Keeps) (m : Move) : (b.after m).Keeps := by
  cases m with
  | subscribe paths => exact h.enqueue _
  | unsubscribe sids => exact h.enqueue _
  | setValue now path v =>
    obtain ⟨htracks, heffects⟩ := h.tracks.change now path v
    exact h.record_silent htracks rfl fun e he => ⟨.flush, heffects e he⟩
  | run now place =>
    rw [after]
    cases b.tasks[place]? with
    | none => exact h
    | some task => exact h.run_task now task _
  | disconnect => exact h.record_silent h.tracks.closeAll rfl fun e he => absurd he List.not_mem_nil
  | connect link =>
    refine h.record_silent ?_ (rfl : batches [] = []) fun e he => absurd he List.not_mem_nil
    rw [List.append_nil]
    exact h.tracks.congr rfl rfl rfl (fun o ho => Option.some.inj ho ▸ rfl) fun _ => rfl

theorem Keeps.run : ∀ (ms : List Move) {b : Bulletin}, b.Keeps → (b.run ms).Keeps
  | [], _, h => h
  | m :: ms, _, h => run ms (h.move m)

/-- What the log of a registry promises for each number. -/
structure Faithful (b : Bulletin) : Prop where
  /-- While a binding lives, the values sent since it began and those that wait are all there were;
  with quality 0 some may be left out, but not the last. -/
  live : ∀ pre sid path qos initial post, b.log = pre ++ .bound sid path qos initial :: post →
    (∀ h ∈ post, ¬ h.Ends sid) →
    Kept qos (initial.toList ++ changes path post) (sentFor sid post) (b.registry.waiting sid) ∧
      ∃ e, b.registry.entries.get? sid = some e ∧ e.path = path ∧ e.qos = qos
  /-- What was sent for a binding that has ended. -/
  ended : ∀ pre sid path qos initial mid h post,
    b.log = pre ++ .bound sid path qos initial :: (mid ++ h :: post) →
    (∀ h ∈ mid, ¬ h.Ends sid) → h.Ends sid →
    (qos ≠ 0 → sentFor sid mid <+: initial.toList ++ changes path mid) ∧
      (qos = 0 → (sentFor sid mid).Sublist (initial.toList ++ changes path mid))
  /-- Nothing is sent between an end and the next beginning, and nothing waits to be. -/
  silent : ∀ pre h mid post sid, b.log = pre ++ h :: (mid ++ post) → h.Ends sid →
    (∀ h' ∈ h :: mid, ¬ h'.Binds sid) →
    sentFor sid mid = [] ∧ (post = [] → b.registry.waiting sid = [] ∧
      b.registry.entries.get? sid = none)
  /-- Nor before the first beginning. -/
  unbound : ∀ mid post sid, b.log = mid ++ post → (∀ h ∈ mid, ¬ h.Binds sid) →
    sentFor sid mid = [] ∧ (post = [] → b.registry.waiting sid = [] ∧
      b.registry.entries.get? sid = none)
  /-- There are no bindings but those in the log. -/
  bound : ∀ sid e, b.registry.entries.get? sid = some e → ∃ pre initial post,
    b.log = pre ++ .bound sid e.path e.qos initial :: post ∧ ∀ h ∈ post, ¬ h.Ends sid
  outbox : b.outbox = (batches b.log).map Registry.message

theorem Keeps.silent (h : b.Keeps) {sid : Nat} (hlife : life sid b.log = none) :
    b.registry.waiting sid = [] ∧ b.registry.entries.get? sid = none := by
  have hnone := h.tracks.life_eq_none.mp hlife
  exact ⟨h.tracks.watching.waiting_none hnone, hnone⟩

theorem Keeps.faithful (h : b.Keeps) : b.Faithful where
  live := by
    intro pre sid path qos initial post hlog hno
    have hlife := life_of_bound pre path qos initial hno
    rw [← hlog] at hlife
    exact ⟨h.tracks.kept sid _ hlife, h.tracks.entry_of_life hlife⟩
  ended := by
    intro pre sid path qos initial mid e post hlog hno hends
    have hlife := life_of_bound pre path qos initial hno
    have hfair := h.tracks.fair (pre ++ .bound sid path qos initial :: mid) e post (by
      rw [hlog, List.append_assoc, List.cons_append])
    exact hfair.ended sid _ hends hlife
  silent := by
    intro pre e mid post sid hlog hends hno
    obtain ⟨hbinds, hrest⟩ := List.forall_mem_cons.mp hno
    have hstart : life sid (pre ++ [e]) = none := life_of_ended hends hbinds (fun _ hh =>
      absurd hh List.not_mem_nil)
    have hfair : Each Fair (pre ++ [e] ++ mid ++ post) := by
      rw [List.append_assoc, List.append_assoc, List.singleton_append, ← hlog]
      exact h.tracks.fair
    refine ⟨sentFor_eq_nil hfair.of_append hstart hrest, fun hpost => h.silent ?_⟩
    rw [hlog, hpost, List.append_nil]
    exact life_of_ended hends hbinds hrest
  unbound := by
    intro mid post sid hlog hno
    have hfair : Each Fair ([] ++ mid ++ post) := hlog ▸ h.tracks.fair
    refine ⟨sentFor_eq_nil hfair.of_append rfl hno, fun hpost => h.silent ?_⟩
    rw [hlog, hpost, List.append_nil]
    exact Life.foldl_after_none mid hno
  bound := by
    intro sid e he
    have hlives := h.tracks.lives sid
    rw [he, Option.map_some] at hlives
    obtain ⟨l, hl, hasked⟩ := Option.map_eq_some_iff.mp hlives
    have hpath : l.path = e.path := congrArg Prod.fst hasked
    have hqos : l.qos = e.qos := congrArg Prod.snd hasked
    obtain ⟨pre, initial, post, hlog, hno⟩ := exists_bound_of_life hl
    rw [hpath, hqos] at hlog
    exact ⟨pre, initial, post, hlog, hno⟩
  outbox := h.outbox

/-- Whatever is asked for, changed and run, in any order. -/
theorem run_faithful (values : Table String ValueUpdate) (actions : Table String Action)
    (ms : List Move) : ((start values actions).run ms).Faithful :=
  (Keeps.run ms (.start values actions)).faithful

/-- A number is bound to another path while a value of the first one waits. -/
def rebinding : List Move :=
  [.connect 1, .subscribe [⟨"/a", 7, 1⟩], .run ⟨0, 0⟩ 0, .setValue ⟨1, 0⟩ "/a" (.bool true),
    .subscribe [⟨"/b", 7, 1⟩], .run ⟨2, 0⟩ 1]

/-- The value that waited is not sent, and waits no longer. -/
theorem rebinding_faithful : ∃ pre,
    ((start {} {}).run rebinding).log = pre ++ [.bound 7 "/b" 1 none] ∧
    changes "/a" pre = [{ value := .bool true, time := ⟨1, 0⟩ }] ∧
    sentFor 7 pre = [] ∧ ((start {} {}).run rebinding).registry.waiting 7 = [] := by
  have hlog : ((start {} {}).run rebinding).log =
      [.bound 7 "/a" 1 none, .changed "/a" { value := .bool true, time := ⟨1, 0⟩ }] ++
        [.bound 7 "/b" 1 none] := rfl
  obtain ⟨hkept, -⟩ := (run_faithful {} {} rebinding).live _ _ _ _ _ _ hlog
    fun h hh => absurd hh List.not_mem_nil
  exact ⟨_, hlog, rfl, rfl, List.append_eq_nil_iff.mp (hkept.all Nat.one_ne_zero) |>.2⟩

end Bulletin
end PeerLink
