import PeerLink.Responder.Registry
import PeerLink.Proofs.Tables

/-! # Trees that keep account of their watches

* `Guard`: a watch that was begun, with the path and the binding it was begun for.
* `Guarded`: a tree of any kind, with the watches that were begun, refused and released.
* `Guarded.run_eq`, `Guarded.closeAll_eq`: a registry does the same without the account.
-/

namespace PeerLink
set_option autoImplicit false

open Json (Value)

structure Guard where
  id : Nat
  path : String
  binding : Binding
deriving DecidableEq

/-- A tree and its account, the oldest first. -/
structure Guarded (σ : Type) where
  tree : σ
  begun : List Guard := []
  refused : List Binding := []
  released : List Nat := []

variable {σ : Type} [ValueTree σ]

namespace Guarded

/-- The account when a watch was asked for. -/
def note (t : Guarded σ) (path : String) (b : Binding) (answer : Except LinkError Nat) (tree : σ) :
    Guarded σ :=
  match answer with
  | .ok id => { t with tree, begun := t.begun ++ [⟨id, path, b⟩] }
  | .error _ => { t with tree, refused := t.refused ++ [b] }

end Guarded

instance : ValueTree (Guarded σ) where
  listChildren t path := ValueTree.listChildren t.tree path
  readValue t path := ValueTree.readValue t.tree path
  writeValue now t path value permit :=
    let (outcome, notices, tree) := ValueTree.writeValue now t.tree path value permit
    (outcome, notices, { t with tree })
  invoke now t path params :=
    let (outcome, notices, tree) := ValueTree.invoke now t.tree path params
    (outcome, notices, { t with tree })
  watch now t path b :=
    let (answer, notices, tree) := ValueTree.watch now t.tree path b
    (answer, notices, t.note path b answer tree)
  unwatch t id := { t with tree := ValueTree.unwatch t.tree id, released := t.released ++ [id] }
  streamClosed t path method := { t with tree := ValueTree.streamClosed t.tree path method }

namespace Guarded

/-! ## The account is not read -/

open Registry (unwatch releaseOne)

/-- The same outcome without the account. -/
def bare {α β : Type} (x : α × β × Guarded σ) : α × β × σ := (x.1, x.2.1, x.2.2.tree)

omit [ValueTree σ] in
@[simp] theorem note_tree (t : Guarded σ) (path : String) (b : Binding)
    (answer : Except LinkError Nat) (tree : σ) : (t.note path b answer tree).tree = tree := by
  cases answer <;> rfl

theorem unwatch_eq (t : Guarded σ) (e : RegistryEntry) :
    (unwatch t e).tree = unwatch t.tree e := by
  unfold unwatch
  cases e.watch <;> rfl

theorem openEntry_eq (r : Registry) (t : Guarded σ) (p : SubscribePath) :
    bare (r.openEntry t p) = r.openEntry t.tree p := by
  simp only [Registry.openEntry, bare]
  cases r.entries.get? p.sid with
  | none => rfl
  | some e =>
    dsimp only
    rw [unwatch_eq]

theorem attach_eq (r : Registry) (t : Guarded σ) (b : Binding) (watch : Nat)
    (initial : Option ValueUpdate) :
    bare (r.attach t b watch initial) = r.attach t.tree b watch initial := by
  unfold Registry.attach
  cases r.current? b with
  | none => rfl
  | some e =>
    dsimp only
    split
    · rfl
    · rfl

theorem bind_eq (now : Timestamp) (r : Registry) (t : Guarded σ) (p : SubscribePath) :
    bare (r.bind now t p) = r.bind now t.tree p := by
  unfold Registry.bind
  split
  · rfl
  · rw [← openEntry_eq]
    obtain ⟨b, r1, t1⟩ := r.openEntry t p
    have hwatch : ValueTree.watch now t1 p.path b =
        ((ValueTree.watch now t1.tree p.path b).1, (ValueTree.watch now t1.tree p.path b).2.1,
          t1.note p.path b (ValueTree.watch now t1.tree p.path b).1
            (ValueTree.watch now t1.tree p.path b).2.2) := rfl
    dsimp only [bare] at hwatch ⊢
    rw [hwatch]
    obtain ⟨answer, notices, tree⟩ := ValueTree.watch now t1.tree p.path b
    dsimp only
    cases answer with
    | error e => rfl
    | ok id =>
      have hattach := attach_eq (r1.onChanges notices).2 (t1.note p.path b (.ok id) tree) b id
        (Registry.initialValue tree p.path)
      rw [note_tree] at hattach
      dsimp only
      rw [← hattach]
      rfl

theorem bindAll_eq (now : Timestamp) : ∀ (ps : List SubscribePath) (r : Registry) (t : Guarded σ),
    bare (r.bindAll now t ps) = r.bindAll now t.tree ps
  | [], _, _ => rfl
  | p :: ps, r, t => by
    simp only [Registry.bindAll]
    rw [← bind_eq]
    simp only [bare]
    rw [← bindAll_eq now ps]
    rfl

theorem foldl_releaseOne : ∀ (sids : List Nat) (r : Registry) (t : Guarded σ),
    ((sids.foldl (fun x sid => releaseOne x.1 x.2 sid) (r, t)).1,
      (sids.foldl (fun x sid => releaseOne x.1 x.2 sid) (r, t)).2.tree) =
        sids.foldl (fun x sid => releaseOne x.1 x.2 sid) (r, t.tree)
  | [], _, _ => rfl
  | sid :: sids, r, t => by
    have hone : releaseOne r t.tree sid =
        ((releaseOne r t sid).1, (releaseOne r t sid).2.tree) := by
      unfold releaseOne
      cases r.entries.get? sid with
      | none => rfl
      | some e =>
        dsimp only
        rw [unwatch_eq]
    rw [List.foldl_cons, List.foldl_cons, hone]
    exact foldl_releaseOne sids _ _

theorem applyAll_eq (now : Timestamp) : ∀ (ops : List RegistryOp) (r : Registry) (t : Guarded σ),
    bare (r.applyAll now t ops) = r.applyAll now t.tree ops
  | [], _, _ => rfl
  | op :: ops, r, t => by
    have hone : bare (r.apply now t op) = r.apply now t.tree op := by
      cases op with
      | subscribe ps => exact bindAll_eq now ps r t
      | unsubscribe sids =>
        simp only [Registry.apply, Registry.release, bare]
        rw [← foldl_releaseOne]
    simp only [Registry.applyAll]
    rw [← hone]
    simp only [bare]
    rw [← applyAll_eq now ops]
    rfl

/-- A registry over a tree with an account does what it does over the tree alone. -/
theorem run_eq (now : Timestamp) (r : Registry) (t : Guarded σ) (task : RegistryTask) :
    bare (r.run now t task) = r.run now t.tree task := by
  cases task with
  | flush => rfl
  | drain =>
    simp only [Registry.run, Registry.drain]
    rw [← applyAll_eq]
    rfl

theorem closeAll_eq (r : Registry) (t : Guarded σ) :
    ((r.closeAll t).1, (r.closeAll t).2.tree) = r.closeAll t.tree := by
  have hall : ∀ (es : List RegistryEntry) (t : Guarded σ),
      (es.foldl unwatch t).tree = es.foldl unwatch t.tree := by
    intro es
    induction es with
    | nil => exact fun _ => rfl
    | cons e es ih =>
      intro t
      rw [List.foldl_cons, List.foldl_cons, ih, unwatch_eq]
  exact congrArg (Prod.mk _) (hall _ t)

end Guarded

/-! ## The watches of entries -/

namespace Registry

/-- The watch of an entry, if it has one. -/
def guard? (x : Nat × RegistryEntry) : Option Guard :=
  x.2.watch.map fun id => ⟨id, x.2.path, ⟨x.1, x.2.token⟩⟩

/-- The watches that the entries hold. -/
def guards (es : Table Nat RegistryEntry) : List Guard := es.entries.filterMap guard?

variable {es : Table Nat RegistryEntry} {sid : Nat} {e : RegistryEntry}

theorem guards_erase (h : es.Distinct) (he : es.get? sid = some e) :
    (guards es).Perm ((guard? (sid, e)).toList ++ guards (es.erase sid)) := by
  have hperm := (Table.perm_erase h he).filterMap guard?
  cases hguard : guard? (sid, e) with
  | none =>
    rw [List.filterMap_cons_none hguard] at hperm
    exact hperm
  | some g =>
    rw [List.filterMap_cons_some hguard] at hperm
    exact hperm

theorem erase_absent (he : es.get? sid = none) : es.erase sid = es := by
  have hentries : (es.erase sid).entries = es.entries := by
    refine List.filter_eq_self.mpr fun x hx => decide_eq_true ?_
    rintro rfl
    exact Table.get?_eq_none.mp he (List.mem_map_of_mem hx)
  exact congrArg Table.mk hentries

/-- An entry without a watch adds none. -/
theorem guards_insert (he : e.watch = none) : guards (es.insert sid e) = guards (es.erase sid) := by
  have hnone : guard? (sid, e) = none := by rw [guard?, he, Option.map_none]
  show ((es.erase sid).entries ++ [(sid, e)]).filterMap guard? = _
  rw [List.filterMap_append, List.filterMap_cons_none hnone, List.filterMap_nil, List.append_nil]
  rfl

/-- Last values do not matter to watches. -/
theorem guards_modify (es : Table Nat RegistryEntry) (sid : Nat) {f : RegistryEntry → RegistryEntry}
    (hf : ∀ k e, guard? (k, f e) = guard? (k, e)) : guards (es.modify sid f) = guards es := by
  rw [guards, Table.modify, List.filterMap_map]
  refine List.filterMap_congr ?_
  rintro ⟨k, e⟩ -
  simp only [Function.comp_apply]
  split
  · exact hf k e
  · rfl

theorem erase_modify (es : Table Nat RegistryEntry) (sid : Nat)
    (f : RegistryEntry → RegistryEntry) : (es.modify sid f).erase sid = es.erase sid := by
  obtain ⟨entries⟩ := es
  refine congrArg Table.mk ?_
  show (entries.map _).filter _ = entries.filter _
  induction entries with
  | nil => rfl
  | cons x entries ih =>
    rw [List.map_cons]
    by_cases hx : x.1 = sid
    · rw [if_pos hx, List.filter_cons_of_neg (by simp [hx]), List.filter_cons_of_neg (by simp [hx])]
      exact ih
    · rw [if_neg hx, List.filter_cons_of_pos (by simp [hx]), List.filter_cons_of_pos (by simp [hx])]
      exact congrArg (x :: ·) ih

/-- An entry that gets its watch. -/
theorem guards_attach (h : es.Distinct) (he : es.get? sid = some e) (hnone : e.watch = none)
    (id : Nat) : (guards (es.modify sid fun e => { e with watch := some id })).Perm
      (guards es ++ [⟨id, e.path, ⟨sid, e.token⟩⟩]) := by
  have hget : (es.modify sid fun e => { e with watch := some id }).get? sid =
      some { e with watch := some id } := by
    rw [Table.get?_modify, if_pos rfl, he]
    rfl
  have hafter := guards_erase (h.modify sid _) hget
  have hbefore := guards_erase h he
  rw [erase_modify] at hafter
  have hempty : guard? (sid, e) = none := by rw [guard?, hnone, Option.map_none]
  rw [hempty, Option.toList_none, List.nil_append] at hbefore
  exact (hafter.trans (hbefore.symm.cons _)).trans (List.perm_append_singleton _ _).symm

end Registry
end PeerLink
