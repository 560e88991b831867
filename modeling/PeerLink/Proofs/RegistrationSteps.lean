import Mathlib.Data.List.Induction
import PeerLink.Proofs.Registrations
import PeerLink.Proofs.Wishes

/-! # Batches over any tree

* `Registry.rebuild`: the entries that wishes lead to, one after the other.
* `Registry.Agrees`: a registry has these entries.
* `Registry.applyAll_serves`: it has those of the next batches when they have been applied; without
  a connection nothing comes of them (`Registry.applyAll_idle`).
* `Registry.Held.closeAll`: the end of a connection releases all watches.
-/

namespace PeerLink
set_option autoImplicit false

namespace Registry

/-! ## Entries from wishes -/

structure Rebuilt where
  /-- The token that was given last. -/
  token : Nat
  table : Table Nat Place := {}

/-- The last binding of a number counts; paths that are not valid are passed over, and a watch that
is refused leaves its number without an entry. -/
def Rebuilt.step (refused : List Binding) (x : Rebuilt) : Wish → Rebuilt
  | .begins p =>
    if Path.valid p.path then
      { token := x.token + 1
        table :=
          if ⟨p.sid, x.token + 1⟩ ∈ refused then x.table.erase p.sid
          else x.table.insert p.sid ⟨p.path, p.qos, x.token + 1⟩ }
    else x
  | .ends sid => { x with table := x.table.erase sid }

def rebuild (refused : List Binding) (first : Nat) (ws : List Wish) : Rebuilt :=
  ws.foldl (Rebuilt.step refused) { token := first }

theorem rebuild_snoc (refused : List Binding) (first : Nat) (ws : List Wish) (w : Wish) :
    rebuild refused first (ws ++ [w]) = (rebuild refused first ws).step refused w := by
  rw [rebuild, List.foldl_append]
  rfl

theorem Rebuilt.le_step (refused : List Binding) (x : Rebuilt) (w : Wish) :
    x.token ≤ (x.step refused w).token := by
  cases w with
  | begins p =>
    rw [step]
    split
    · exact Nat.le_succ _
    · exact Nat.le_refl _
  | ends sid => exact Nat.le_refl _

/-- Watches that are refused later do not matter. -/
theorem rebuild_later {refused more : List Binding} {first : Nat} {ws : List Wish}
    (h : ∀ b ∈ more, (rebuild refused first ws).token < b.token) :
    rebuild (refused ++ more) first ws = rebuild refused first ws := by
  induction ws using List.reverseRecOn with
  | nil => rfl
  | append_singleton ws w ih =>
    rw [rebuild_snoc] at h
    have hle := (rebuild refused first ws).le_step refused w
    have hsame := ih fun b hb => Nat.lt_of_le_of_lt hle (h b hb)
    rw [rebuild_snoc, rebuild_snoc, hsame]
    cases w with
    | ends sid => rfl
    | begins p =>
      rw [Rebuilt.step] at h ⊢
      rw [Rebuilt.step]
      split
      · rename_i hvalid
        rw [if_pos hvalid] at h
        have hnot : (⟨p.sid, (rebuild refused first ws).token + 1⟩ : Binding) ∉ more :=
          fun hmem => Nat.lt_irrefl _ (h _ hmem)
        simp only [List.mem_append, or_iff_left hnot]
      · rfl

variable {σ : Type}

/-- The entries are those that the wishes lead to. -/
structure Agrees (r : Registry) (t : Guarded σ) (first : Nat) (ws : List Wish) : Prop where
  token : (rebuild t.refused first ws).token = r.nextToken
  place : ∀ sid, (rebuild t.refused first ws).table.get? sid = r.place? sid

variable {r r' : Registry} {t t' : Guarded σ} {first : Nat} {ws : List Wish} {p : SubscribePath}
  {es : Effects}

theorem Agrees.settled {refused : Bool} (h : r.Agrees t first ws) (hheld : Held r t)
    (hvalid : Path.valid p.path = true) (hsettled : r.Settled t p refused es r' t') :
    r'.Agrees t' first (ws ++ [.begins p]) := by
  have hlater : rebuild t'.refused first ws = rebuild t.refused first ws := by
    rw [hsettled.refusals]
    refine rebuild_later ?_
    intro b hb
    rw [h.token]
    cases refused with
    | false => cases hb
    | true =>
      rw [List.mem_singleton.mp hb]
      exact Nat.lt_succ_self _
  have hmem : (⟨p.sid, r.nextToken + 1⟩ : Binding) ∈ t'.refused ↔ refused = true := by
    have hnew : (⟨p.sid, r.nextToken + 1⟩ : Binding) ∉ t.refused :=
      fun hmem => Nat.not_succ_le_self _ (hheld.refused _ hmem)
    rw [hsettled.refusals, List.mem_append, or_iff_right hnew]
    cases refused with
    | false => exact iff_of_false List.not_mem_nil nofun
    | true => exact iff_of_true (List.mem_singleton_self _) rfl
  refine ⟨?_, ?_⟩
  · rw [rebuild_snoc, hlater, Rebuilt.step, if_pos hvalid, h.token, hsettled.nextToken]
  · intro sid
    rw [rebuild_snoc, hlater, Rebuilt.step, if_pos hvalid, h.token, hsettled.place]
    simp only [hmem]
    cases refused with
    | true =>
      rw [if_pos rfl, Table.get?_erase, h.place]
      simp
    | false =>
      rw [if_neg Bool.false_ne_true, Table.get?_insert, h.place]
      simp

theorem Agrees.skipped (h : r.Agrees t first ws) (hvalid : Path.valid p.path = false) :
    r.Agrees t first (ws ++ [.begins p]) := by
  have hsame : rebuild t.refused first (ws ++ [.begins p]) = rebuild t.refused first ws := by
    rw [rebuild_snoc, Rebuilt.step, hvalid, if_neg Bool.false_ne_true]
  exact ⟨hsame ▸ h.token, hsame ▸ h.place⟩

theorem rebuild_ends (refused : List Binding) (first : Nat) (ws : List Wish) (sids : List Nat) :
    (rebuild refused first (ws ++ sids.map .ends)).token = (rebuild refused first ws).token ∧
      ∀ sid, (rebuild refused first (ws ++ sids.map .ends)).table.get? sid =
        if sid ∈ sids then none else (rebuild refused first ws).table.get? sid := by
  induction sids using List.reverseRecOn with
  | nil => simp
  | append_singleton sids s ih =>
    obtain ⟨htoken, hget⟩ := ih
    rw [List.map_append, ← List.append_assoc, List.map_singleton, rebuild_snoc]
    refine ⟨htoken, ?_⟩
    intro sid
    rw [Rebuilt.step, Table.get?_erase, hget]
    by_cases hs : sid = s
    · simp [hs]
    · by_cases hmem : sid ∈ sids
      · simp [hs, hmem]
      · simp [hs, hmem]

theorem Agrees.freed {sids : List Nat} (h : r.Agrees t first ws)
    (hfreed : r.Freed t sids r' t') : r'.Agrees t' first (ws ++ sids.map .ends) := by
  obtain ⟨htoken, hget⟩ := rebuild_ends t.refused first ws sids
  refine ⟨?_, ?_⟩
  · rw [hfreed.refused, htoken, h.token, hfreed.nextToken]
  · intro sid
    rw [hfreed.refused, hget, h.place, hfreed.place]

/-! ## Batches -/

/-- A registry with a connection, and the wishes that led to it. -/
structure Serving (r : Registry) (t : Guarded σ) (first : Nat) (ws : List Wish) : Prop where
  held : Held r t
  bound : r.outlet.isSome = true
  agrees : r.Agrees t first ws

variable [ValueTree σ]

theorem bind_serves (hdiscreet : Discreet σ) (h : r.Serving t first ws) (now : Timestamp)
    (p : SubscribePath) :
    r.Works (r.bind now t p).1 (r.bind now t p).2.1 ∧
      (r.bind now t p).2.1.Serving (r.bind now t p).2.2 first (ws ++ [.begins p]) := by
  cases hvalid : Path.valid p.path with
  | false =>
    have hbind : r.bind now t p = ([], r, t) := by
      rw [bind, hvalid]
      rfl
    rw [hbind]
    exact ⟨.refl r, h.held, h.bound, h.agrees.skipped hvalid⟩
  | true =>
    obtain ⟨refused, hsettled⟩ := bind_settles hdiscreet h.held h.bound hvalid now
    refine ⟨hsettled.works, hsettled.held, ?_, h.agrees.settled h.held hvalid hsettled⟩
    rw [hsettled.works.outlet]
    exact h.bound

theorem bindAll_serves (hdiscreet : Discreet σ) (now : Timestamp) :
    ∀ (ps : List SubscribePath) {r : Registry} {t : Guarded σ} {ws : List Wish},
      r.Serving t first ws →
      r.Works (r.bindAll now t ps).1 (r.bindAll now t ps).2.1 ∧
        (r.bindAll now t ps).2.1.Serving (r.bindAll now t ps).2.2 first (ws ++ ps.map .begins)
  | [], r, t, ws, h => by
    rw [List.map_nil, List.append_nil]
    exact ⟨.refl r, h⟩
  | p :: ps, r, t, ws, h => by
    obtain ⟨hworks, hone⟩ := bind_serves hdiscreet h now p
    obtain ⟨hworks', hall⟩ := bindAll_serves hdiscreet now ps hone
    rw [List.append_assoc] at hall
    exact ⟨hworks.trans hworks', hall⟩

theorem apply_serves (hdiscreet : Discreet σ) (h : r.Serving t first ws) (now : Timestamp)
    (op : RegistryOp) :
    r.Works (r.apply now t op).1 (r.apply now t op).2.1 ∧
      (r.apply now t op).2.1.Serving (r.apply now t op).2.2 first (ws ++ op.wishes) := by
  cases op with
  | subscribe ps => exact bindAll_serves hdiscreet now ps h
  | unsubscribe sids =>
    have hfreed := release_freed h.held sids
    refine ⟨hfreed.works, hfreed.held, ?_, h.agrees.freed hfreed⟩
    show (r.release t sids).1.outlet.isSome = true
    rw [hfreed.works.outlet]
    exact h.bound

theorem applyAll_serves (hdiscreet : Discreet σ) (now : Timestamp) :
    ∀ (ops : List RegistryOp) {r : Registry} {t : Guarded σ} {ws : List Wish},
      r.Serving t first ws →
      r.Works (r.applyAll now t ops).1 (r.applyAll now t ops).2.1 ∧
        (r.applyAll now t ops).2.1.Serving (r.applyAll now t ops).2.2 first
          (ws ++ ops.flatMap (·.wishes))
  | [], r, t, ws, h => by
    rw [List.flatMap_nil, List.append_nil]
    exact ⟨.refl r, h⟩
  | op :: ops, r, t, ws, h => by
    obtain ⟨hworks, hone⟩ := apply_serves hdiscreet h now op
    obtain ⟨hworks', hall⟩ := applyAll_serves hdiscreet now ops hone
    rw [List.append_assoc] at hall
    exact ⟨hworks.trans hworks', hall⟩

/-- Without a connection batches come to nothing. -/
theorem applyAll_idle (houtlet : r.outlet = none) (hentries : r.entries = {})
    (hqueued : r.queued = []) (now : Timestamp) (t : Guarded σ) :
    ∀ ops : List RegistryOp, r.applyAll now t ops = ([], r, t)
  | [] => rfl
  | .subscribe ps :: ops => by
    have hone : r.apply now t (.subscribe ps) = ([], r, t) := bindAll_of_unbound houtlet now t ps
    rw [applyAll, hone]
    simp only [applyAll_idle houtlet hentries hqueued now t ops, List.append_nil]
  | .unsubscribe sids :: ops => by
    have hall : ∀ sids : List Nat,
        sids.foldl (fun x sid => releaseOne x.1 x.2 sid) (r, t) = (r, t) := by
      intro sids
      induction sids with
      | nil => rfl
      | cons sid sids ih =>
        have hone : releaseOne r t sid = (r, t) := by
          rw [releaseOne, hentries]
          rfl
        rw [List.foldl_cons, hone, ih]
    have hsame : r.withoutQueued sids = r := by
      rw [withoutQueued, hqueued, List.filter_nil, ← hqueued]
    have hrelease : r.release t sids =
        sids.foldl (fun x sid => releaseOne x.1 x.2 sid) (r.withoutQueued sids, t) := rfl
    have hone : r.apply now t (.unsubscribe sids) = ([], r, t) := by
      rw [apply, hrelease, hsame, hall]
    rw [applyAll, hone]
    simp only [applyAll_idle houtlet hentries hqueued now t ops, List.append_nil]

/-! ## The end of a connection -/

theorem foldl_unwatch_account : ∀ (entries : List RegistryEntry) (t : Guarded σ),
    (entries.foldl unwatch t).begun = t.begun ∧ (entries.foldl unwatch t).refused = t.refused ∧
      (entries.foldl unwatch t).released = t.released ++ entries.filterMap (·.watch)
  | [], _ => ⟨rfl, rfl, (List.append_nil _).symm⟩
  | e :: entries, t => by
    obtain ⟨hbegun, hrefused, hreleased⟩ := unwatch_account t e
    obtain ⟨hbegun', hrefused', hreleased'⟩ := foldl_unwatch_account entries (unwatch t e)
    refine ⟨hbegun'.trans hbegun, hrefused'.trans hrefused, ?_⟩
    rw [List.foldl_cons, hreleased', hreleased, List.append_assoc]
    cases hwatch : e.watch with
    | none => simp [hwatch]
    | some id => simp [hwatch]

theorem map_id_guards (es : Table Nat RegistryEntry) :
    (guards es).map (·.id) = es.values.filterMap (·.watch) := by
  rw [guards, List.map_filterMap, Table.values, List.filterMap_map]
  refine List.filterMap_congr ?_
  intro x _
  simp [guard?, Function.comp_def]

theorem Held.closeAll (h : Held r t) : Held (r.closeAll t).1 (r.closeAll t).2 := by
  obtain ⟨hbegun, hrefused, hreleased⟩ := foldl_unwatch_account r.entries.values t
  obtain ⟨gone, hperm, hgone⟩ := h.accounted
  refine ⟨List.nodup_nil, ⟨gone ++ guards r.entries, ?_, ?_⟩, nofun, nofun, ?_, ?_, ?_⟩
  · show (r.entries.values.foldl unwatch t).begun.Perm _
    rw [hbegun]
    exact hperm.trans (List.append_nil _ ▸ List.Perm.refl _)
  · show (r.entries.values.foldl unwatch t).released = _
    rw [hreleased, hgone, List.map_append, map_id_guards]
  · show ((r.entries.values.foldl unwatch t).begun.map _).Nodup
    rw [hbegun]
    exact h.once
  · show ∀ g ∈ (r.entries.values.foldl unwatch t).begun, _
    rw [hbegun]
    exact h.begun
  · show ∀ b ∈ (r.entries.values.foldl unwatch t).refused, _
    rw [hrefused]
    exact h.refused

end Registry
end PeerLink
