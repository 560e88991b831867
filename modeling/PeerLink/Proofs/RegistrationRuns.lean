import PeerLink.Proofs.RegistrationSteps
import PeerLink.Tree.Hooked

/-! # Keepers

A registry over any tree, with the tasks that wait.

* `Keeper.Move`, `Keeper.after`: what can happen, and what comes of it. Any task that waits may be
  next, and is run whole; the tree may change and call whom it likes.
* `Keeper.Kept`: the invariant.
* `Keeper.Lawful`: watches and entries, what waits and who sends it, and where entries come from.
* `Keeper.stays_lawful`: so it is after any moves, over any tree that refuses watches in silence.
  A batch that comes between two connections is applied on the second (`Keeper.stray_bound`).
-/

namespace PeerLink
set_option autoImplicit false

structure Keeper (σ : Type) where
  registry : Registry := {}
  tree : Guarded σ
  tasks : List RegistryTask := []
  /-- Batches that have come since the latest disconnect, before a connection was bound. -/
  early : List RegistryOp := []
  /-- Batches that have come since then. -/
  received : List RegistryOp := []
  /-- Batches that were applied since the latest disconnect. -/
  applied : List RegistryOp := []
  /-- The token that had been given last at the latest disconnect. -/
  first : Nat := 0

namespace Keeper
variable {σ : Type}

def start (t : σ) : Keeper σ := { tree := { tree := t } }

/-! ## Moves -/

inductive Move (σ : Type)
  | connect (link : Nat)
  | loseWriter (link : Nat)
  | receive (op : RegistryOp)
  /-- A task that waits is run. -/
  | run (now : Timestamp) (task : RegistryTask)
  /-- The tree changes by itself. -/
  | change (act : σ → List (Notice Binding) × σ)
  | closeAll

open Registry (tasksOf guards rebuild)

def isBound (k : Keeper σ) : Bool := k.registry.outlet.isSome

def receive (k : Keeper σ) (op : RegistryOp) : Keeper σ :=
  let (effects, registry) := k.registry.enqueue op
  let k := { k with registry, tasks := k.tasks ++ tasksOf effects }
  if k.isBound then { k with received := k.received ++ [op] }
  else { k with early := k.early ++ [op] }

variable [ValueTree σ]

def run (now : Timestamp) (k : Keeper σ) (task : RegistryTask) : Keeper σ :=
  let (effects, registry, tree) := k.registry.run now k.tree task
  { k with
    registry, tree
    tasks := k.tasks.erase task ++ tasksOf effects
    applied :=
      if k.isBound && task = .drain then k.applied ++ k.registry.ops else k.applied }

def after (k : Keeper σ) : Move σ → Keeper σ
  | .connect link => { k with registry := k.registry.connect link }
  | .loseWriter link => { k with registry := k.registry.loseWriter link }
  | .receive op => k.receive op
  | .run now task => if task ∈ k.tasks then k.run now task else k
  | .change act =>
    let (notices, tree) := act k.tree.tree
    let (effects, registry) := k.registry.onChanges notices
    { k with registry, tree := { k.tree with tree }, tasks := k.tasks ++ tasksOf effects }
  | .closeAll =>
    let (registry, tree) := k.registry.closeAll k.tree
    { registry, tree, tasks := k.tasks, first := registry.nextToken }

def ofMoves (t : σ) (moves : List (Move σ)) : Keeper σ := moves.foldl after (start t)

/-! ## The invariant -/

/-- What holds between tasks. -/
structure Kept (k : Keeper σ) : Prop where
  held : Registry.Held k.registry k.tree
  agrees : k.registry.Agrees k.tree k.first (k.applied.flatMap (·.wishes))
  drains : k.tasks.count .drain = k.registry.draining.toNat
  flushes : k.tasks.count .flush = k.registry.flushScheduled.toNat
  opsWait : k.registry.ops ≠ [] → k.registry.draining = true
  queuedWait : k.registry.queued ≠ [] → k.registry.flushScheduled = true
  idle : k.registry.outlet = none →
    k.registry.entries = {} ∧ k.registry.queued = [] ∧ k.received = [] ∧ k.applied = []
  batches : ∃ kept, kept <:+ k.early ∧ k.applied ++ k.registry.ops = kept ++ k.received

variable {k : Keeper σ}

omit [ValueTree σ] in
theorem Kept.start (t : σ) : (start t).Kept where
  held := Registry.Held.start t
  agrees := ⟨rfl, fun _ => rfl⟩
  drains := rfl
  flushes := rfl
  opsWait := absurd rfl
  queuedWait := absurd rfl
  idle := fun _ => ⟨rfl, rfl, rfl, rfl⟩
  batches := ⟨[], List.suffix_rfl, rfl⟩

omit [ValueTree σ] in
/-- Only the connection has changed, and there is one. -/
theorem Kept.rebind (h : k.Kept) {outlet : Option Outlet}
    (hbound : outlet = none → k.registry.outlet = none) :
    Kept { k with registry := { k.registry with outlet } } where
  held := ⟨h.held.distinct, h.held.accounted, h.held.each, h.held.queued, h.held.once,
    h.held.begun, h.held.refused⟩
  agrees := ⟨h.agrees.token, h.agrees.place⟩
  drains := h.drains
  flushes := h.flushes
  opsWait := h.opsWait
  queuedWait := h.queuedWait
  idle := fun hnone => h.idle (hbound hnone)
  batches := h.batches

omit [ValueTree σ] in
theorem Kept.receive (h : k.Kept) (op : RegistryOp) : (k.receive op).Kept := by
  have hheld : Registry.Held (k.registry.enqueue op).2 k.tree :=
    ⟨h.held.distinct, h.held.accounted, h.held.each, h.held.queued, h.held.once, h.held.begun,
      h.held.refused⟩
  have hdrains : (k.tasks ++ tasksOf (k.registry.enqueue op).1).count .drain = 1 := by
    rw [List.count_append, h.drains, Registry.enqueue]
    cases k.registry.draining <;> rfl
  have hflushes : (k.tasks ++ tasksOf (k.registry.enqueue op).1).count .flush =
      k.registry.flushScheduled.toNat := by
    rw [List.count_append, h.flushes, Registry.enqueue]
    cases k.registry.draining <;> rfl
  obtain ⟨kept, hsuffix, hbatches⟩ := h.batches
  cases hbound : k.registry.outlet with
  | none =>
    obtain ⟨-, -, hreceived, happlied⟩ := h.idle hbound
    have hshape : k.receive op =
        { k with
          registry := (k.registry.enqueue op).2
          tasks := k.tasks ++ tasksOf (k.registry.enqueue op).1
          early := k.early ++ [op] } := by
      rw [Keeper.receive]
      exact if_neg (by simp [isBound, hbound])
    rw [hshape]
    refine ⟨hheld, ⟨h.agrees.token, h.agrees.place⟩, hdrains, hflushes, fun _ => rfl,
      h.queuedWait, h.idle, kept ++ [op], ?_, ?_⟩
    · obtain ⟨lost, hlost⟩ := hsuffix
      exact ⟨lost, by rw [← List.append_assoc, hlost]⟩
    · show k.applied ++ (k.registry.ops ++ [op]) = kept ++ [op] ++ k.received
      rw [← List.append_assoc, hbatches, hreceived, List.append_nil, List.append_nil]
  | some outlet =>
    have hshape : k.receive op =
        { k with
          registry := (k.registry.enqueue op).2
          tasks := k.tasks ++ tasksOf (k.registry.enqueue op).1
          received := k.received ++ [op] } := by
      rw [Keeper.receive]
      exact if_pos (by simp [isBound, hbound])
    rw [hshape]
    refine ⟨hheld, ⟨h.agrees.token, h.agrees.place⟩, hdrains, hflushes, fun _ => rfl,
      h.queuedWait, ?_, kept, hsuffix, ?_⟩
    · intro hnone
      cases hbound.symm.trans hnone
    · show k.applied ++ (k.registry.ops ++ [op]) = kept ++ (k.received ++ [op])
      rw [← List.append_assoc, hbatches, List.append_assoc]

theorem Kept.change (h : k.Kept) (act : σ → List (Notice Binding) × σ) :
    (k.after (.change act)).Kept := by
  have hrings := Registry.onChanges_rings (act k.tree.tree).1 k.registry
  have hkeys := hrings.keys
  show Kept { k with
    registry := (k.registry.onChanges (act k.tree.tree).1).2
    tree := { k.tree with tree := (act k.tree.tree).2 }
    tasks := k.tasks ++ tasksOf (k.registry.onChanges (act k.tree.tree).1).1 }
  refine ⟨h.held.rings hrings rfl rfl rfl, ⟨?_, ?_⟩, ?_, ?_, ?_, ?_, ?_, ?_⟩
  · rw [hrings.nextToken]
    exact h.agrees.token
  · intro sid
    rw [hrings.place?]
    exact h.agrees.place sid
  · rw [List.count_append, hrings.works.drains, hrings.works.draining]
    exact h.drains
  · rw [List.count_append, h.flushes, Nat.add_comm]
    exact hrings.works.flushes
  · rw [hrings.works.ops, hrings.works.draining]
    exact h.opsWait
  · exact hrings.works.waits h.queuedWait
  · rw [hrings.works.outlet]
    intro hnone
    obtain ⟨hentries, hqueued, hrest⟩ := h.idle hnone
    rw [Feed.onChanges_of_empty hentries]
    exact ⟨hentries, hqueued, hrest⟩
  · rw [hrings.works.ops]
    exact h.batches

theorem Kept.closeAll (h : k.Kept) : (k.after .closeAll).Kept where
  held := h.held.closeAll
  agrees := ⟨rfl, fun _ => rfl⟩
  drains := h.drains
  flushes := h.flushes
  opsWait := absurd rfl
  queuedWait := absurd rfl
  idle := fun _ => ⟨rfl, rfl, rfl, rfl⟩
  batches := ⟨[], List.suffix_rfl, rfl⟩

/-! ### Tasks -/

theorem Kept.flush (h : k.Kept) (now : Timestamp) (hmem : .flush ∈ k.tasks) :
    (k.run now .flush).Kept := by
  have hnone : tasksOf k.registry.flush.1 = [] := by
    refine List.filterMap_eq_nil_iff.mpr ?_
    intro effect heffect
    simp only [Registry.flush] at heffect
    split at heffect
    · cases heffect
    · obtain ⟨o, -, rfl⟩ := List.mem_map.mp heffect
      rfl
  have hflag : k.registry.flushScheduled = true := by
    have hpos := List.count_pos_iff.mpr hmem
    rw [h.flushes] at hpos
    cases hflag : k.registry.flushScheduled with
    | true => rfl
    | false =>
      rw [hflag] at hpos
      exact absurd hpos (Nat.lt_irrefl 0)
  have hshape : k.run now .flush =
      { k with
        registry := k.registry.flush.2
        tasks := k.tasks.erase .flush ++ tasksOf k.registry.flush.1 } := by
    simp [Keeper.run, Registry.run]
  rw [hshape, hnone, List.append_nil]
  refine ⟨⟨h.held.distinct, h.held.accounted, h.held.each, List.forall_mem_nil _, h.held.once,
    h.held.begun, h.held.refused⟩, ⟨h.agrees.token, h.agrees.place⟩, ?_, ?_, h.opsWait, absurd rfl,
    ?_, h.batches⟩
  · show (k.tasks.erase .flush).count .drain = k.registry.draining.toNat
    rw [List.count_erase_of_ne (by decide)]
    exact h.drains
  · show (k.tasks.erase .flush).count .flush = 0
    rw [List.count_erase_self, h.flushes, hflag]
    rfl
  · intro hbound
    obtain ⟨hentries, -, hrest⟩ := h.idle hbound
    exact ⟨hentries, rfl, hrest⟩

/-- The registry of a drain that has taken the batches. -/
def emptied (k : Keeper σ) : Registry := { k.registry with ops := [] }

/-- A drain when the batches have been applied. -/
def drained (k : Keeper σ) (x : Registry.Effects × Registry × Guarded σ) : Keeper σ :=
  { k with
    registry := { x.2.1 with draining := false }
    tree := x.2.2
    tasks := k.tasks.erase .drain ++ tasksOf x.1
    applied := if k.isBound then k.applied ++ k.registry.ops else k.applied }

theorem run_drain (k : Keeper σ) (now : Timestamp) : k.run now .drain =
    k.drained (k.emptied.applyAll now k.tree k.registry.ops) := by
  simp [Keeper.run, Registry.run, Registry.drain, drained, emptied]

omit [ValueTree σ] in
/-- The tasks that wait when a drain has been run. -/
theorem Kept.drained_tasks (h : k.Kept) (hmem : .drain ∈ k.tasks) {es : Registry.Effects}
    {r' : Registry} (hworks : k.emptied.Works es r') :
    (k.tasks.erase .drain ++ tasksOf es).count .drain = 0 ∧
      (k.tasks.erase .drain ++ tasksOf es).count .flush = r'.flushScheduled.toNat := by
  have hpos := List.count_pos_iff.mpr hmem
  have hle := Bool.toNat_le k.registry.draining
  have hdrains := h.drains
  have hflushes : (tasksOf es).count .flush + k.registry.flushScheduled.toNat =
      r'.flushScheduled.toNat := hworks.flushes
  rw [← hflushes, ← h.flushes]
  refine ⟨?_, ?_⟩
  · rw [List.count_append, hworks.drains, List.count_erase_self]
    omega
  · rw [List.count_append, List.count_erase_of_ne (by decide), Nat.add_comm]

theorem Kept.drain (hdiscreet : Discreet σ) (h : k.Kept) (now : Timestamp)
    (hmem : .drain ∈ k.tasks) : (k.run now .drain).Kept := by
  rw [run_drain]
  obtain ⟨kept, hsuffix, hbatches⟩ := h.batches
  have hheld : Registry.Held k.emptied k.tree :=
    ⟨h.held.distinct, h.held.accounted, h.held.each, h.held.queued, h.held.once, h.held.begun,
      h.held.refused⟩
  cases hbound : k.registry.outlet with
  | none =>
    obtain ⟨hentries, hqueued, hreceived, happlied⟩ := h.idle hbound
    have hidle : k.emptied.applyAll now k.tree k.registry.ops = ([], k.emptied, k.tree) :=
      Registry.applyAll_idle (r := k.emptied) hbound hentries hqueued now k.tree k.registry.ops
    obtain ⟨hdrains, hflushes⟩ := h.drained_tasks hmem (.refl k.emptied)
    have hsame : (k.drained ([], k.emptied, k.tree)).applied = k.applied :=
      if_neg (by simp [isBound, hbound])
    rw [hidle]
    refine ⟨⟨hheld.distinct, hheld.accounted, hheld.each, hheld.queued, hheld.once, hheld.begun,
      hheld.refused⟩, ?_, hdrains, hflushes, absurd rfl, h.queuedWait, ?_, [],
      List.nil_suffix, ?_⟩
    · rw [hsame]
      exact ⟨h.agrees.token, h.agrees.place⟩
    · rw [hsame]
      exact fun _ => ⟨hentries, hqueued, hreceived, happlied⟩
    · rw [hsame, happlied]
      exact hreceived.symm
  | some outlet =>
    have hserving : k.emptied.Serving k.tree k.first (k.applied.flatMap (·.wishes)) :=
      ⟨hheld, Option.isSome_iff_exists.mpr ⟨outlet, hbound⟩, h.agrees.token, h.agrees.place⟩
    obtain ⟨hworks, hserves⟩ :=
      Registry.applyAll_serves hdiscreet now k.registry.ops hserving
    generalize k.emptied.applyAll now k.tree k.registry.ops = x
      at hworks hserves ⊢
    obtain ⟨hdrains, hflushes⟩ := h.drained_tasks hmem hworks
    have happlied : (k.drained x).applied = k.applied ++ k.registry.ops :=
      if_pos (by simp [isBound, hbound])
    rw [← List.flatMap_append] at hserves
    refine ⟨⟨hserves.held.distinct, hserves.held.accounted, hserves.held.each,
      hserves.held.queued, hserves.held.once, hserves.held.begun, hserves.held.refused⟩, ?_,
      hdrains, hflushes, ?_, hworks.waits h.queuedWait, ?_, kept, hsuffix, ?_⟩
    · rw [happlied]
      exact ⟨hserves.agrees.token, hserves.agrees.place⟩
    · exact absurd hworks.ops
    · intro hnone
      have hsome := hserves.bound
      rw [show x.2.1.outlet = none from hnone] at hsome
      cases hsome
    · rw [happlied, hbatches]
      show kept ++ k.received ++ x.2.1.ops = kept ++ k.received
      rw [hworks.ops]
      exact List.append_nil _

theorem Kept.after (hdiscreet : Discreet σ) (h : k.Kept) (move : Move σ) :
    (k.after move).Kept := by
  cases move with
  | connect link => exact h.rebind nofun
  | loseWriter link => exact h.rebind Option.map_eq_none_iff.mp
  | receive op => exact h.receive op
  | change act => exact h.change act
  | closeAll => exact h.closeAll
  | run now task =>
    rw [Keeper.after]
    split
    · rename_i hmem
      cases task with
      | drain => exact h.drain hdiscreet now hmem
      | flush => exact h.flush now hmem
    · exact h

theorem ofMoves_kept (hdiscreet : Discreet σ) (t : σ) (moves : List (Move σ)) :
    (ofMoves t moves).Kept := by
  induction moves using List.reverseRecOn with
  | nil => exact .start t
  | append_singleton moves move ih =>
    rw [ofMoves, List.foldl_append]
    exact ih.after hdiscreet move

/-! ## What holds between tasks -/

structure Lawful (k : Keeper σ) : Prop where
  /-- A watch that was begun is that of one entry, or it has been released, once. -/
  watches : ∃ gone, k.tree.begun.Perm (gone ++ guards k.registry.entries) ∧
    k.tree.released = gone.map (·.id)
  bindings : (k.tree.begun.map (·.binding)).Nodup
  distinct : k.registry.entries.Distinct
  watched : ∀ sid e, k.registry.entries.get? sid = some e →
    ∃ id, e.watch = some id ∧ ⟨id, e.path, sid, e.token⟩ ∈ guards k.registry.entries
  queued : ∀ u ∈ k.registry.queued, ∃ e, k.registry.entries.get? u.sid = some e
  drains : k.tasks.count .drain ≤ 1 ∧ (k.registry.ops ≠ [] → k.tasks.count .drain = 1)
  flushes : k.tasks.count .flush ≤ 1 ∧ (k.registry.queued ≠ [] → k.tasks.count .flush = 1)
  entries : ∀ sid, k.registry.place? sid =
    (rebuild k.tree.refused k.first (k.applied.flatMap (·.wishes))).table.get? sid
  /-- Of the batches that came before a connection was bound, the first ones may have been lost. -/
  batches : ∃ kept, kept <:+ k.early ∧ k.applied ++ k.registry.ops = kept ++ k.received
  unbound : k.registry.outlet = none → k.registry.entries = {} ∧ k.registry.queued = []

omit [ValueTree σ] in
theorem Kept.lawful (h : k.Kept) : k.Lawful where
  watches := h.held.accounted
  bindings := h.held.once
  distinct := h.held.distinct
  watched := by
    intro sid e he
    obtain ⟨id, hid⟩ := Option.ne_none_iff_exists'.mp (h.held.each sid e he)
    have hmem := (Table.mem_entries h.held.distinct).mpr he
    refine ⟨id, hid, List.mem_filterMap.mpr ⟨(sid, e), hmem, ?_⟩⟩
    rw [Registry.guard?, hid]
    rfl
  queued := by
    intro u hu
    exact Option.isSome_iff_exists.mp (Table.mem_keys.mp (h.held.queued u hu))
  drains := by
    rw [h.drains]
    refine ⟨Bool.toNat_le _, ?_⟩
    intro hops
    rw [h.opsWait hops]
    rfl
  flushes := by
    rw [h.flushes]
    refine ⟨Bool.toNat_le _, ?_⟩
    intro hqueued
    rw [h.queuedWait hqueued]
    rfl
  entries := fun sid => (h.agrees.place sid).symm
  batches := h.batches
  unbound := by
    intro hnone
    obtain ⟨hentries, hqueued, -⟩ := h.idle hnone
    exact ⟨hentries, hqueued⟩

/-- Whatever comes, and in whatever order the tasks are run. -/
theorem stays_lawful (hdiscreet : Discreet σ) (t : σ) (moves : List (Move σ)) :
    (ofMoves t moves).Lawful := (ofMoves_kept hdiscreet t moves).lawful

end Keeper

theorem HookedTree.discreet : Discreet HookedTree := by
  intro now t path b e he
  change (t.watch now path b).1 = .error e at he
  show (t.watch now path b).2.1 = []
  unfold HookedTree.watch at he ⊢
  split
  · rfl
  · rename_i hgo
    rw [if_neg hgo] at he
    cases hchange : t.changes.lookup path with
    | none => simp only [hchange, reduceCtorEq] at he
    | some value => simp only [hchange, reduceCtorEq] at he

namespace Keeper

/-- A number is bound, then bound again where the watch is refused, while a value of it waits. -/
def rebinds : List (Move HookedTree) :=
  [.connect 1, .receive (.subscribe [⟨"/a", 1, 0⟩, ⟨"//", 2, 0⟩, ⟨"/b", 3, 1⟩]), .run ⟨0, 0⟩ .drain,
    .receive (.subscribe [⟨"/no", 1, 0⟩]), .run ⟨0, 0⟩ .drain, .run ⟨0, 0⟩ .flush]

def partlyOpen : HookedTree := { refusedWatches := ["/no"] }

theorem rebinds_lawful :
    (ofMoves partlyOpen rebinds).Lawful ∧ (ofMoves partlyOpen rebinds).tree.released = [0] :=
  ⟨stays_lawful HookedTree.discreet partlyOpen rebinds, by decide +kernel⟩

/-- A batch that comes when the connection has ended, and waits until there is another one. -/
def stray : List (Move HookedTree) :=
  [.connect 1, .closeAll, .receive (.subscribe [⟨"/a", 1, 0⟩]), .connect 2, .run ⟨0, 0⟩ .drain]

/-- An entry that no batch of its connection has made. -/
theorem stray_bound : (ofMoves ({} : HookedTree) stray).received = [] ∧
    (ofMoves ({} : HookedTree) stray).registry.place? 1 = some ⟨"/a", 0, 1⟩ := by
  decide +kernel

end Keeper
end PeerLink
