import PeerLink.Proofs.Guards
import PeerLink.Proofs.Unbound

/-! # Registrations over any tree

* `Registry.Works`: what steps do to the flags, and which tasks they schedule.
* `Registry.Rings`: a change is told; the watches stay as they are.
* `Registry.Held`: each watch that was begun is the watch of one entry, or has been released once.
* `Registry.Settled`: a number is bound, or its watch is refused; `Registry.bind_settles` says that
  nothing else becomes of an entry of a batch.
* `Registry.Freed`: numbers are released.
-/

namespace PeerLink
set_option autoImplicit false

/-- A tree that refuses a watch calls nobody. -/
def Discreet (σ : Type) [ValueTree σ] : Prop :=
  ∀ now (t : σ) path b e, (ValueTree.watch now t path b).1 = .error e →
    (ValueTree.watch now t path b).2.1 = []

namespace Registry

/-! ## Flags -/

def tasksOf (es : Effects) : List RegistryTask :=
  es.filterMap fun effect =>
    match effect with
    | .schedule task => some task
    | .send _ => none

theorem tasksOf_append (es es' : Effects) : tasksOf (es ++ es') = tasksOf es ++ tasksOf es' :=
  List.filterMap_append

/-- Steps that schedule a flush when none is on its way, and no drain. -/
structure Works (r : Registry) (es : Effects) (r' : Registry) : Prop where
  outlet : r'.outlet = r.outlet
  ops : r'.ops = r.ops
  draining : r'.draining = r.draining
  drains : (tasksOf es).count .drain = 0
  flushes : (tasksOf es).count .flush + r.flushScheduled.toNat = r'.flushScheduled.toNat
  waits : (r.queued ≠ [] → r.flushScheduled = true) → r'.queued ≠ [] → r'.flushScheduled = true

variable {r r' r'' : Registry} {es es' : Effects}

theorem Works.refl (r : Registry) : r.Works [] r := ⟨rfl, rfl, rfl, rfl, Nat.zero_add _, id⟩

theorem Works.trans (h : r.Works es r') (h' : r'.Works es' r'') : r.Works (es ++ es') r'' where
  outlet := h'.outlet.trans h.outlet
  ops := h'.ops.trans h.ops
  draining := h'.draining.trans h.draining
  drains := by rw [tasksOf_append, List.count_append, h.drains, h'.drains]
  flushes := by
    have h1 := h.flushes
    have h2 := h'.flushes
    rw [tasksOf_append, List.count_append]
    omega
  waits := h'.waits ∘ h.waits

/-- Nothing is scheduled, and not more waits. -/
theorem Works.still (houtlet : r'.outlet = r.outlet) (hops : r'.ops = r.ops)
    (hdraining : r'.draining = r.draining) (hflag : r'.flushScheduled = r.flushScheduled)
    (hqueued : r'.queued.Sublist r.queued) : r.Works [] r' := by
  refine ⟨houtlet, hops, hdraining, rfl, ?_, ?_⟩
  · rw [hflag]
    exact Nat.zero_add _
  · intro hwaits hne
    rw [hflag]
    refine hwaits ?_
    rintro hnil
    rw [hnil] at hqueued
    exact hne (List.sublist_nil.mp hqueued)

/-! ## Changes -/

/-- What binds a number: its path, its quality and its token. -/
structure Place where
  path : String
  qos : Nat
  token : Nat
deriving DecidableEq

def place? (r : Registry) (sid : Nat) : Option Place :=
  (r.entries.get? sid).map fun e => ⟨e.path, e.qos, e.token⟩

/-- A change is told to entries, whose values wait then; otherwise they stay as they are. -/
structure Rings (r : Registry) (es : Effects) (r' : Registry) : Prop where
  works : r.Works es r'
  guards : Registry.guards r'.entries = Registry.guards r.entries
  keys : r'.entries.keys = r.entries.keys
  bare : ∀ sid, (r'.entries.get? sid).map (·.bare) = (r.entries.get? sid).map (·.bare)
  nextToken : r'.nextToken = r.nextToken
  queued : ∀ u ∈ r'.queued, u ∈ r.queued ∨ u.sid ∈ r.entries.keys

theorem Rings.refl (r : Registry) : r.Rings [] r :=
  ⟨.refl r, rfl, rfl, fun _ => rfl, rfl, fun _ => .inl⟩

theorem Rings.trans (h : r.Rings es r') (h' : r'.Rings es' r'') : r.Rings (es ++ es') r'' where
  works := h.works.trans h'.works
  guards := h'.guards.trans h.guards
  keys := h'.keys.trans h.keys
  bare := fun sid => (h'.bare sid).trans (h.bare sid)
  nextToken := h'.nextToken.trans h.nextToken
  queued := by
    intro u hu
    rcases h'.queued u hu with hu | hu
    · exact h.queued u hu
    · rw [h.keys] at hu
      exact .inr hu

theorem Rings.place? (h : r.Rings es r') (sid : Nat) : r'.place? sid = r.place? sid := by
  have hplace : ∀ r : Registry, r.place? sid =
      ((r.entries.get? sid).map (·.bare)).map fun e => ⟨e.path, e.qos, e.token⟩ := by
    intro r
    rw [Registry.place?, Option.map_map]
    rfl
  rw [hplace, hplace, h.bare]

theorem record_rings {b : Binding} {e : RegistryEntry} (he : r.entries.get? b.sid = some e)
    (u : ValueUpdate) : r.Rings (r.record b e u).1 (r.record b e u).2 where
  works := by
    refine ⟨rfl, rfl, rfl, ?_, ?_, fun _ _ => rfl⟩
    · simp only [record, queue]
      cases r.flushScheduled <;> rfl
    · simp only [record, queue]
      cases r.flushScheduled <;> rfl
  guards := guards_modify _ _ fun _ _ => rfl
  keys := Table.keys_modify _ _ _
  bare := by
    intro sid
    rw [(recorded he u).get]
    split
    · rename_i hsid
      rw [hsid, he]
      rfl
    · rfl
  nextToken := rfl
  queued := by
    intro v hv
    rcases (recorded he u).mem v hv with rfl | hv
    · exact .inr (Table.mem_keys.mpr (by simp [Table.contains, he]))
    · exact .inl hv

theorem onChange_rings (r : Registry) (n : Notice Binding) :
    r.Rings (r.onChange n).1 (r.onChange n).2 := by
  unfold onChange
  cases hcurrent : r.current? n.listener with
  | none => exact .refl r
  | some e => exact record_rings (current?_eq_some.mp hcurrent).1 n.update

theorem onChanges_rings : ∀ (ns : List (Notice Binding)) (r : Registry),
    r.Rings (r.onChanges ns).1 (r.onChanges ns).2
  | [], r => .refl r
  | n :: ns, r => (r.onChange_rings n).trans (onChanges_rings ns _)

/-! ## Watches and entries -/

variable {σ : Type} {t t' : Guarded σ}

/-- The watches that were begun are those of the entries and those that have been released, each of
them once. -/
def Accounted (es : Table Nat RegistryEntry) (t : Guarded σ) : Prop :=
  ∃ gone, t.begun.Perm (gone ++ guards es) ∧ t.released = gone.map (·.id)

structure Held (r : Registry) (t : Guarded σ) : Prop where
  distinct : r.entries.Distinct
  accounted : Accounted r.entries t
  each : ∀ sid e, r.entries.get? sid = some e → e.watch ≠ none
  queued : ∀ u ∈ r.queued, u.sid ∈ r.entries.keys
  once : (t.begun.map (·.binding)).Nodup
  begun : ∀ g ∈ t.begun, g.binding.token ≤ r.nextToken
  refused : ∀ b ∈ t.refused, b.token ≤ r.nextToken

theorem Held.start (t : σ) : Held {} (⟨t, [], [], []⟩ : Guarded σ) where
  distinct := List.nodup_nil
  accounted := ⟨[], List.Perm.refl _, rfl⟩
  each := nofun
  queued := nofun
  once := List.nodup_nil
  begun := nofun
  refused := nofun

theorem Held.rings (h : Held r t) (hrings : r.Rings es r') (hbegun : t'.begun = t.begun)
    (hrefused : t'.refused = t.refused) (hreleased : t'.released = t.released) : Held r' t' where
  distinct := by
    rw [Table.Distinct, hrings.keys]
    exact h.distinct
  accounted := by
    rw [Accounted, hrings.guards, hbegun, hreleased]
    exact h.accounted
  each := by
    intro sid e he hnone
    have hbare := hrings.bare sid
    rw [he, Option.map_some] at hbare
    obtain ⟨e0, he0, heq⟩ := Option.map_eq_some_iff.mp hbare.symm
    have hwatch : e0.watch = e.watch := (congrArg RegistryEntry.watch heq :)
    exact h.each sid e0 he0 (hwatch.trans hnone)
  queued := by
    intro u hu
    rw [hrings.keys]
    exact (hrings.queued u hu).elim (h.queued u) id
  once := hbegun ▸ h.once
  begun := by
    rw [hbegun, hrings.nextToken]
    exact h.begun
  refused := by
    rw [hrefused, hrings.nextToken]
    exact h.refused

section
variable [ValueTree σ]

theorem unwatch_account (t : Guarded σ) (e : RegistryEntry) :
    (unwatch t e).begun = t.begun ∧ (unwatch t e).refused = t.refused ∧
      (unwatch t e).released = t.released ++ e.watch.toList := by
  unfold unwatch
  cases e.watch with
  | none => exact ⟨rfl, rfl, (List.append_nil _).symm⟩
  | some id => exact ⟨rfl, rfl, rfl⟩

/-- When an entry goes, its watch is released. -/
theorem Accounted.unwatch {es : Table Nat RegistryEntry} (h : Accounted es t)
    (hdistinct : es.Distinct) {sid : Nat} {e : RegistryEntry} (he : es.get? sid = some e) :
    Accounted (es.erase sid) (unwatch t e) := by
  obtain ⟨gone, hperm, hreleased⟩ := h
  obtain ⟨hbegun, -, hreleased'⟩ := unwatch_account t e
  refine ⟨gone ++ (guard? (sid, e)).toList, ?_, ?_⟩
  · rw [hbegun, List.append_assoc]
    exact hperm.trans ((guards_erase hdistinct he).append_left gone)
  · rw [hreleased', hreleased, List.map_append]
    cases hwatch : e.watch with
    | none => simp [guard?, hwatch]
    | some id => simp [guard?, hwatch]

end

/-! ## Releases -/

/-- Numbers that have been released. -/
structure Freed (r : Registry) (t : Guarded σ) (sids : List Nat) (r' : Registry)
    (t' : Guarded σ) : Prop where
  held : Held r' t'
  place : ∀ sid, r'.place? sid = if sid ∈ sids then none else r.place? sid
  nextToken : r'.nextToken = r.nextToken
  refused : t'.refused = t.refused
  works : r.Works [] r'

theorem place?_eq_none {sid : Nat} : r.place? sid = none ↔ r.entries.get? sid = none :=
  Option.map_eq_none_iff

theorem Freed.trans {t'' : Guarded σ} {sids sids' : List Nat} (h : r.Freed t sids r' t')
    (h' : r'.Freed t' sids' r'' t'') : r.Freed t (sids ++ sids') r'' t'' where
  held := h'.held
  place := by
    intro sid
    rw [h'.place, h.place]
    by_cases hlast : sid ∈ sids'
    · simp [hlast]
    · by_cases hfirst : sid ∈ sids
      · simp [hlast, hfirst]
      · simp [hlast, hfirst]
  nextToken := h'.nextToken.trans h.nextToken
  refused := h'.refused.trans h.refused
  works := h.works.trans h'.works

section
variable [ValueTree σ]

theorem releaseOne_freed (h : Held r t) (sid : Nat) (hq : ∀ u ∈ r.queued, u.sid ≠ sid) :
    r.Freed t [sid] (r.releaseOne t sid).1 (r.releaseOne t sid).2 := by
  unfold releaseOne
  cases he : r.entries.get? sid with
  | none =>
    refine ⟨h, ?_, rfl, rfl, .refl r⟩
    intro sid'
    by_cases hsid : sid' = sid
    · rw [if_pos (by simp [hsid]), hsid]
      exact place?_eq_none.mpr he
    · rw [if_neg (by simp [hsid])]
  | some e =>
    obtain ⟨hbegun, hrefused, -⟩ := unwatch_account t e
    refine ⟨⟨h.distinct.erase sid, h.accounted.unwatch h.distinct he, ?_, ?_, ?_, ?_, ?_⟩, ?_, rfl,
      hrefused, .still rfl rfl rfl rfl (List.Sublist.refl _)⟩
    · intro sid' e' he'
      exact h.each sid' e' (Table.get?_erase_eq_some.mp he').2
    · intro u hu
      rw [Table.keys_erase]
      exact List.mem_filter.mpr ⟨h.queued u hu, by simpa using hq u hu⟩
    · rw [hbegun]
      exact h.once
    · rw [hbegun]
      exact h.begun
    · rw [hrefused]
      exact h.refused
    · intro sid'
      rw [Registry.place?, Registry.place?, Table.get?_erase]
      by_cases hsid : sid' = sid
      · rw [if_pos hsid, if_pos (by simp [hsid])]
        rfl
      · rw [if_neg hsid, if_neg (by simp [hsid])]

theorem releaseOne_queued (r : Registry) (t : Guarded σ) (sid : Nat) :
    (r.releaseOne t sid).1.queued = r.queued := by
  unfold releaseOne
  split <;> rfl

theorem releaseAll_freed : ∀ (sids : List Nat) (r : Registry) (t : Guarded σ), Held r t →
    (∀ u ∈ r.queued, u.sid ∉ sids) →
    r.Freed t sids (sids.foldl (fun x sid => releaseOne x.1 x.2 sid) (r, t)).1
      (sids.foldl (fun x sid => releaseOne x.1 x.2 sid) (r, t)).2
  | [], r, t, h, _ => ⟨h, fun _ => by simp, rfl, rfl, .refl r⟩
  | sid :: sids, r, t, h, hq => by
    have hone := releaseOne_freed h sid fun u hu heq => hq u hu (by simp [heq])
    have hrest := releaseAll_freed sids _ _ hone.held fun u hu hmem => by
      rw [releaseOne_queued] at hu
      exact hq u hu (List.mem_cons_of_mem sid hmem)
    exact hone.trans hrest

theorem release_freed (h : Held r t) (sids : List Nat) :
    r.Freed t sids (r.release t sids).1 (r.release t sids).2 := by
  have hsub : (r.withoutQueued sids).queued.Sublist r.queued := List.filter_sublist
  have hheld : Held (r.withoutQueued sids) t :=
    ⟨h.distinct, h.accounted, h.each, fun u hu => h.queued u (hsub.subset hu), h.once, h.begun,
      h.refused⟩
  have hall := releaseAll_freed sids (r.withoutQueued sids) t hheld fun u hu =>
    (mem_withoutQueued.mp hu).2
  have hworks : r.Works [] (r.withoutQueued sids) := .still rfl rfl rfl rfl hsub
  exact ⟨hall.held, hall.place, hall.nextToken, hall.refused, hworks.trans hall.works⟩

end

/-! ## Bindings -/

/-- The entry that a number gets first. -/
def freshEntry (r : Registry) (p : SubscribePath) : RegistryEntry :=
  { path := p.path, qos := p.qos, token := r.nextToken + 1 }

def freshBinding (r : Registry) (p : SubscribePath) : Binding := ⟨p.sid, r.nextToken + 1⟩

/-- A registry in which a number has an entry that waits for its watch. -/
structure Opened (r : Registry) (t : Guarded σ) (p : SubscribePath) (r' : Registry)
    (t' : Guarded σ) : Prop where
  distinct : r'.entries.Distinct
  accounted : Accounted r'.entries t'
  get : ∀ sid, r'.entries.get? sid =
    if sid = p.sid then some (r.freshEntry p) else r.entries.get? sid
  queued : ∀ u ∈ r'.queued, u.sid ∈ r.entries.keys ∧ u.sid ≠ p.sid
  begun : t'.begun = t.begun
  refused : t'.refused = t.refused
  nextToken : r'.nextToken = r.nextToken + 1
  works : r.Works [] r'

theorem openEntry_opened [ValueTree σ] (h : Held r t) (p : SubscribePath) :
    (r.openEntry t p).1 = r.freshBinding p ∧
      r.Opened t p (r.openEntry t p).2.1 (r.openEntry t p).2.2 := by
  refine ⟨rfl, ?_⟩
  have hget : ∀ sid, (r.entries.insert p.sid (r.freshEntry p)).get? sid = _ :=
    fun sid => Table.get?_insert r.entries p.sid sid (r.freshEntry p)
  have hguards : guards (r.entries.insert p.sid (r.freshEntry p)) =
      guards (r.entries.erase p.sid) := guards_insert rfl
  simp only [openEntry]
  cases he : r.entries.get? p.sid with
  | none =>
    refine ⟨h.distinct.insert _ _, ?_, hget, ?_, rfl, rfl, rfl,
      .still rfl rfl rfl rfl (List.Sublist.refl _)⟩
    · rw [erase_absent he] at hguards
      show Accounted (r.entries.insert p.sid (r.freshEntry p)) t
      rw [Accounted, hguards]
      exact h.accounted
    · intro u hu
      refine ⟨h.queued u hu, ?_⟩
      intro hsid
      exact Table.get?_eq_none.mp he (hsid ▸ h.queued u hu)
  | some e =>
    obtain ⟨hbegun, hrefused, -⟩ := unwatch_account t e
    refine ⟨h.distinct.insert _ _, ?_, hget, ?_, hbegun, hrefused, rfl,
      .still rfl rfl rfl rfl List.filter_sublist⟩
    · show Accounted (r.entries.insert p.sid (r.freshEntry p)) (unwatch t e)
      rw [Accounted, hguards]
      exact h.accounted.unwatch h.distinct he
    · intro u hu
      obtain ⟨hmem, hne⟩ := List.mem_filter.mp hu
      exact ⟨h.queued u hmem, of_decide_eq_true hne⟩

/-- A number is bound, or it has no entry because its watch was refused. -/
structure Settled (r : Registry) (t : Guarded σ) (p : SubscribePath) (refused : Bool)
    (es : Effects) (r' : Registry) (t' : Guarded σ) : Prop where
  held : Held r' t'
  place : ∀ sid, r'.place? sid =
    if sid = p.sid then if refused then none else some ⟨p.path, p.qos, r.nextToken + 1⟩
    else r.place? sid
  nextToken : r'.nextToken = r.nextToken + 1
  refusals : t'.refused = t.refused ++ if refused then [r.freshBinding p] else []
  works : r.Works es r'

variable {p : SubscribePath}

theorem Opened.get_self (h : r.Opened t p r' t') :
    r'.entries.get? p.sid = some (r.freshEntry p) := by rw [h.get, if_pos rfl]

theorem Opened.mem_keys (h : r.Opened t p r' t') {sid : Nat} (hsid : sid ∈ r.entries.keys) :
    sid ∈ r'.entries.keys := by
  by_contra hnot
  have hnone := Table.get?_eq_none.mpr hnot
  rw [h.get] at hnone
  split at hnone
  · cases hnone
  · exact Table.get?_eq_none.mp hnone hsid

theorem Opened.begun_le (h : r.Opened t p r' t') (hheld : Held r t) :
    ∀ g ∈ t'.begun, g.binding.token < r.nextToken + 1 := by
  rw [h.begun]
  exact fun g hg => Nat.lt_succ_of_le (hheld.begun g hg)

theorem Opened.refused_le (h : r.Opened t p r' t') (hheld : Held r t) :
    ∀ b ∈ t'.refused, b.token ≤ r.nextToken + 1 := by
  rw [h.refused]
  exact fun b hb => Nat.le_succ_of_le (hheld.refused b hb)

/-! ### A watch is refused -/

theorem Opened.refuse (h : r.Opened t p r' t') (hheld : Held r t) (e : LinkError) (tree : σ) :
    r.Settled t p true [] (r'.refuse (r.freshBinding p))
      (t'.note p.path (r.freshBinding p) (.error e) tree) := by
  have hcurrent : r'.current? (r.freshBinding p) = some (r.freshEntry p) :=
    current?_eq_some.mpr ⟨h.get_self, rfl⟩
  have hrefuse : r'.refuse (r.freshBinding p) =
      { r' with entries := r'.entries.erase p.sid } := by
    rw [Registry.refuse, hcurrent]
    rfl
  have hget : ∀ sid, (r'.entries.erase p.sid).get? sid =
      if sid = p.sid then none else r.entries.get? sid := by
    intro sid
    rw [Table.get?_erase, h.get]
    split <;> rfl
  rw [hrefuse]
  refine ⟨⟨h.distinct.erase p.sid, ?_, ?_, ?_, ?_, ?_, ?_⟩, ?_, h.nextToken, ?_, ?_⟩
  · obtain ⟨gone, hperm, hreleased⟩ := h.accounted
    exact ⟨gone, hperm.trans ((guards_erase h.distinct h.get_self).append_left gone), hreleased⟩
  · intro sid e he
    rw [hget] at he
    split at he
    · cases he
    · exact hheld.each sid e he
  · intro u hu
    obtain ⟨hmem, hne⟩ := h.queued u hu
    rw [Table.keys_erase]
    exact List.mem_filter.mpr ⟨h.mem_keys hmem, by simpa using hne⟩
  · show (t'.begun.map (·.binding)).Nodup
    rw [h.begun]
    exact hheld.once
  · intro g hg
    rw [h.nextToken]
    exact Nat.le_of_lt (h.begun_le hheld g hg)
  · intro b hb
    rw [h.nextToken]
    rcases List.mem_append.mp hb with hb | hb
    · exact h.refused_le hheld b hb
    · rw [List.mem_singleton.mp hb]
      exact Nat.le_refl _
  · intro sid
    rw [Registry.place?, hget]
    split <;> rfl
  · show t'.refused ++ [_] = _
    rw [h.refused]
    rfl
  · exact h.works.trans (.still rfl rfl rfl rfl (List.Sublist.refl _))

/-! ### A watch begins -/

/-- The entry that has waited for its watch, with what it has heard meanwhile. -/
theorem Opened.heard {r'' : Registry} (h : r.Opened t p r' t') (hrings : r'.Rings es r'') :
    ∃ e, r''.entries.get? p.sid = some e ∧ e.bare = r.freshEntry p := by
  have hbare := hrings.bare p.sid
  rw [h.get_self, Option.map_some] at hbare
  exact Option.map_eq_some_iff.mp hbare

theorem Opened.place {r'' : Registry} (h : r.Opened t p r' t') (hrings : r'.Rings es r'')
    (sid : Nat) : r''.place? sid =
      if sid = p.sid then some ⟨p.path, p.qos, r.nextToken + 1⟩ else r.place? sid := by
  rw [hrings.place?, Registry.place?, h.get]
  split <;> rfl

/-- The registry with the watch of an entry. -/
def withWatchOf (r : Registry) (sid id : Nat) : Registry :=
  { r with entries := r.entries.modify sid fun e => { e with watch := some id } }

theorem get?_withWatchOf (r : Registry) (sid id sid' : Nat) :
    (r.withWatchOf sid id).entries.get? sid' =
      if sid' = sid then (r.entries.get? sid').map fun e => { e with watch := some id }
      else r.entries.get? sid' := Table.get?_modify _ _ _ _

theorem place?_withWatchOf (r : Registry) (sid id sid' : Nat) :
    (r.withWatchOf sid id).place? sid' = r.place? sid' := by
  rw [Registry.place?, get?_withWatchOf]
  split
  · rw [Option.map_map]
    rfl
  · rfl

theorem Opened.attached {r'' : Registry} (h : r.Opened t p r' t') (hheld : Held r t)
    (hrings : r'.Rings es r'') (id : Nat) (tree : σ) :
    Held (r''.withWatchOf p.sid id) (t'.note p.path (r.freshBinding p) (.ok id) tree) := by
  obtain ⟨e, he, hbare⟩ := h.heard hrings
  have hdistinct : r''.entries.Distinct := by
    rw [Table.Distinct, hrings.keys]
    exact h.distinct
  have hpath : e.path = p.path := (congrArg RegistryEntry.path hbare :)
  have htoken : e.token = r.nextToken + 1 := (congrArg RegistryEntry.token hbare :)
  have hwatch : e.watch = none := (congrArg RegistryEntry.watch hbare :)
  have hkeys : (r''.withWatchOf p.sid id).entries.keys = r'.entries.keys :=
    (Table.keys_modify _ _ _).trans hrings.keys
  refine ⟨hdistinct.modify _ _, ?_, ?_, ?_, ?_, ?_, ?_⟩
  · obtain ⟨gone, hperm, hreleased⟩ := h.accounted
    have hguards := guards_attach hdistinct he hwatch id
    rw [hrings.guards, hpath, htoken] at hguards
    refine ⟨gone, ?_, hreleased⟩
    have hnew : (t'.begun ++ [(⟨id, p.path, r.freshBinding p⟩ : Guard)]).Perm
        (gone ++ (guards r'.entries ++ [⟨id, p.path, r.freshBinding p⟩])) := by
      rw [← List.append_assoc]
      exact hperm.append_right _
    exact hnew.trans (hguards.symm.append_left gone)
  · intro sid e' he'
    rw [get?_withWatchOf] at he'
    split at he'
    · obtain ⟨e0, -, rfl⟩ := Option.map_eq_some_iff.mp he'
      exact Option.some_ne_none id
    · rename_i hsid
      have hbare' := hrings.bare sid
      rw [he', h.get, if_neg hsid, Option.map_some] at hbare'
      obtain ⟨e0, he0, heq⟩ := Option.map_eq_some_iff.mp hbare'.symm
      have hsame : e0.watch = e'.watch := (congrArg RegistryEntry.watch heq :)
      exact hsame ▸ hheld.each sid e0 he0
  · intro u hu
    rw [hkeys]
    exact (hrings.queued u hu).elim (fun hu => h.mem_keys (h.queued u hu).1) fun hu => hu
  · show ((t'.begun ++ [(⟨id, p.path, r.freshBinding p⟩ : Guard)]).map (·.binding)).Nodup
    rw [List.map_append]
    refine List.Nodup.append (h.begun ▸ hheld.once) (List.nodup_singleton _) ?_
    refine List.disjoint_singleton.mpr ?_
    intro hmem
    obtain ⟨g, hg, heq⟩ := List.mem_map.mp hmem
    have hlt := h.begun_le hheld g hg
    rw [heq] at hlt
    exact Nat.lt_irrefl _ hlt
  · intro g hg
    show g.binding.token ≤ r''.nextToken
    rw [hrings.nextToken, h.nextToken]
    rcases List.mem_append.mp hg with hg | hg
    · exact Nat.le_of_lt (h.begun_le hheld g hg)
    · rw [List.mem_singleton.mp hg]
      exact Nat.le_refl _
  · intro b hb
    show b.token ≤ r''.nextToken
    rw [hrings.nextToken, h.nextToken]
    exact h.refused_le hheld b hb

section
variable [ValueTree σ]

/-- Giving a binding its watch leads to the entry with the watch, and rings with the value that was
read, if no change has come. -/
theorem attach_rings {b : Binding} {e : RegistryEntry} (hcurrent : r.current? b = some e)
    (t : Guarded σ) (id : Nat) (initial : Option ValueUpdate) :
    (r.withWatchOf b.sid id).Rings (r.attach t b id initial).1 (r.attach t b id initial).2.1 ∧
      (r.attach t b id initial).2.2 = t := by
  have hget : (r.withWatchOf b.sid id).entries.get? b.sid = some { e with watch := some id } := by
    rw [get?_withWatchOf, if_pos rfl, (current?_eq_some.mp hcurrent).1]
    rfl
  simp only [attach, hcurrent]
  split
  · exact ⟨record_rings hget _, rfl⟩
  · exact ⟨.refl _, rfl⟩

theorem Opened.attach {r'' : Registry} (h : r.Opened t p r' t') (hheld : Held r t)
    (hrings : r'.Rings es r'') (id : Nat) (tree : σ) (initial : Option ValueUpdate) :
    r.Settled t p false
      (es ++ (r''.attach (t'.note p.path (r.freshBinding p) (.ok id) tree) (r.freshBinding p) id
        initial).1)
      (r''.attach (t'.note p.path (r.freshBinding p) (.ok id) tree) (r.freshBinding p) id
        initial).2.1
      (r''.attach (t'.note p.path (r.freshBinding p) (.ok id) tree) (r.freshBinding p) id
        initial).2.2 := by
  obtain ⟨e, he, hbare⟩ := h.heard hrings
  have htoken : e.token = r.nextToken + 1 := (congrArg RegistryEntry.token hbare :)
  have hcurrent : r''.current? (r.freshBinding p) = some e :=
    current?_eq_some.mpr ⟨he, by rw [htoken]; rfl⟩
  obtain ⟨hlast, htree⟩ := attach_rings hcurrent
    (t'.note p.path (r.freshBinding p) (.ok id) tree) id initial
  rw [htree]
  have hsame : r''.Works [] (r''.withWatchOf p.sid id) :=
    .still rfl rfl rfl rfl (List.Sublist.refl _)
  refine ⟨(h.attached hheld hrings id tree).rings hlast rfl rfl rfl, ?_, ?_, ?_, ?_⟩
  · intro sid
    rw [hlast.place?]
    exact (place?_withWatchOf _ _ _ _).trans (h.place hrings sid)
  · exact hlast.nextToken.trans (hrings.nextToken.trans h.nextToken)
  · exact h.refused.trans (List.append_nil _).symm
  · exact h.works.trans (hrings.works.trans (hsame.trans hlast.works))

/-- A valid path of a batch is bound, or its watch is refused. -/
theorem bind_settles (hdiscreet : Discreet σ) (h : Held r t) (hbound : r.outlet.isSome = true)
    (hvalid : Path.valid p.path = true) (now : Timestamp) :
    ∃ refused, r.Settled t p refused (r.bind now t p).1 (r.bind now t p).2.1
      (r.bind now t p).2.2 := by
  have hgo : ¬ ((!Path.valid p.path || r.outlet.isNone) = true) := by
    rw [hvalid, Option.isNone_eq_false_iff.mpr hbound]
    nofun
  obtain ⟨hfresh, hopened⟩ := openEntry_opened h p
  unfold bind
  rw [if_neg hgo]
  generalize r.openEntry t p = x at hfresh hopened ⊢
  obtain ⟨b, r1, t1⟩ := x
  obtain rfl : b = r.freshBinding p := hfresh
  have hquiet := hdiscreet now t1.tree p.path (r.freshBinding p)
  have hwatch : ValueTree.watch now t1 p.path (r.freshBinding p) =
      ((ValueTree.watch now t1.tree p.path (r.freshBinding p)).1,
        (ValueTree.watch now t1.tree p.path (r.freshBinding p)).2.1,
        t1.note p.path (r.freshBinding p)
          (ValueTree.watch now t1.tree p.path (r.freshBinding p)).1
          (ValueTree.watch now t1.tree p.path (r.freshBinding p)).2.2) := rfl
  dsimp only at hopened ⊢
  rw [hwatch]
  generalize ValueTree.watch now t1.tree p.path (r.freshBinding p) = y at hquiet ⊢
  obtain ⟨answer, notices, tree⟩ := y
  cases answer with
  | error e =>
    obtain rfl : notices = [] := hquiet e rfl
    exact ⟨true, hopened.refuse h e tree⟩
  | ok id => exact ⟨false, hopened.attach h (onChanges_rings notices r1) id tree _⟩

end

end Registry
end PeerLink
