import PeerLink.Proofs.Histories
import PeerLink.Proofs.PathNames
import PeerLink.Proofs.Tables
import Mathlib.Data.List.Induction
import Mathlib.Data.String.Basic

/-! # Listings

What a tree lists is the hierarchy of the paths on which something was put.

* `MemoryTree.Edit`, `MemoryTree.ofEdits`: what is put into a tree.
* `MemoryTree.HasAction`, `MemoryTree.HasValue`: what stands on a path after some edits.
* `MemoryTree.Reached`: the paths that are found by going down from the root, row by row.
* `MemoryTree.Hierarchical`: which paths list, and what they list.
-/

namespace PeerLink
set_option autoImplicit false

open Json (Value)

namespace MemoryTree
variable {L : Type}

inductive Edit
  | set (now : Timestamp) (path : String) (value : Value)
  | write (now : Timestamp) (path : String) (value : Value) (permit : Permission)
  | act (path : String) (action : Action)

def Edit.path : Edit → String
  | .set _ path _ | .write _ path _ _ | .act path _ => path

def edit (t : MemoryTree L) : Edit → MemoryTree L
  | .set now path value => (t.setValue now path value).2
  | .write now path value permit => (t.writeValue now path value permit).2.2
  | .act path action => t.addAction path action

def ofEdits (edits : List Edit) : MemoryTree L := edits.foldl edit {}

/-! ## What was put on a path -/

def HasAction (edits : List Edit) (path : String) : Prop := ∃ action, .act path action ∈ edits

/-- A value was put on a path by one more edit. A write needs a permit, and leaves actions alone. -/
def PutsValue (edits : List Edit) (e : Edit) (path : String) : Prop :=
  (∃ now value, e = .set now path value) ∨
    ∃ now value permit, e = .write now path value permit ∧ permit.mayWrite = true ∧
      ¬ HasAction edits path

def HasValue (edits : List Edit) (path : String) : Prop :=
  ∃ before e after, edits = before ++ e :: after ∧ PutsValue before e path

def Holds (edits : List Edit) (path : String) : Prop := HasValue edits path ∨ HasAction edits path

/-- What is known about a node: whether it can be invoked, or else has a value. -/
structure Marked (edits : List Edit) (path : String) (info : Value) : Prop where
  invokable : HasAction edits path →
    info = .obj [("$invokable", .str "write"), ("$is", .str "node")]
  dynamic : ¬ HasAction edits path → HasValue edits path →
    info = .obj [("$is", .str "node"), ("$type", .str "dynamic")]
  plain : ¬ Holds edits path → info = .obj [("$is", .str "node")]

/-- The paths that are found by going down from the root, row by row. -/
inductive Reached (t : MemoryTree L) : String → Prop
  | root : t.Reached "/"
  | down {path : String} {rows : List Row} {row : Row} : t.Reached path →
      t.listChildren path = .ok rows → row ∈ rows → t.Reached (Path.child path row.name)

/-- A path leads to something that was put into the tree. -/
def Leads (edits : List Edit) (path : String) : Prop :=
  path = "/" ∨ ∃ path', Holds edits path' ∧ Path.Covers path path'

structure Hierarchical (edits : List Edit) (t : MemoryTree L) : Prop where
  lists : ∀ path, Path.valid path = true →
    ((∃ rows, t.listChildren path = .ok rows) ↔ Leads edits path)
  refuses : ∀ path, Path.valid path = true → ¬ Leads edits path →
    t.listChildren path = .error (.badPath path)
  ordered : ∀ path rows, t.listChildren path = .ok rows → (rows.map Row.name).Pairwise (· < ·)
  /-- A name is listed if its path lists. -/
  children : ∀ path rows, Path.valid path = true → t.listChildren path = .ok rows → ∀ name,
    name ∈ rows.map Row.name ↔ Path.IsName name.toList ∧
      ∃ rows', t.listChildren (Path.child path name) = .ok rows'
  marked : ∀ path rows, t.listChildren path = .ok rows → ∀ row ∈ rows,
    Marked edits (Path.child path row.name) row.info
  walk : ∀ path, t.Reached path ↔ Path.valid path = true ∧ Leads edits path
  /-- A write that is refused leaves the tree as it is, and nobody hears of it. -/
  refused : ∀ now path value permit e, (t.writeValue now path value permit).1 = .error e →
    (t.writeValue now path value permit).2 = ([], t)

/-! ## Names in order -/

theorem mem_insertName {n m : String} {ns : List String} :
    n ∈ insertName m ns ↔ n = m ∨ n ∈ ns := by
  induction ns with
  | nil => exact List.mem_cons
  | cons k ks ih =>
    rw [insertName]
    split_ifs with heq hlt
    · rw [heq, List.mem_cons, ← or_assoc, or_self]
    · exact List.mem_cons
    · rw [List.mem_cons, ih, List.mem_cons, or_left_comm]

theorem insertName_ordered {n : String} {ns : List String} (h : ns.Pairwise (· < ·)) :
    (insertName n ns).Pairwise (· < ·) := by
  induction ns with
  | nil => exact List.pairwise_singleton _ n
  | cons m ms ih =>
    obtain ⟨hfirst, hrest⟩ := List.pairwise_cons.mp h
    rw [insertName]
    split_ifs with heq hlt
    · exact h
    · refine List.pairwise_cons.mpr ⟨fun k hk => ?_, h⟩
      obtain rfl | hk := List.mem_cons.mp hk
      · exact hlt
      · exact hlt.trans (hfirst k hk)
    · refine List.pairwise_cons.mpr ⟨fun k hk => ?_, ih hrest⟩
      obtain rfl | hk := mem_insertName.mp hk
      · exact lt_of_le_of_ne (not_lt.mp hlt) (Ne.symm heq)
      · exact hfirst k hk

theorem insertNames (names ns : List String) :
    (∀ n, n ∈ names.foldl (fun ns n => insertName n ns) ns ↔ n ∈ names ∨ n ∈ ns) ∧
      (ns.Pairwise (· < ·) →
        (names.foldl (fun ns n => insertName n ns) ns).Pairwise (· < ·)) := by
  induction names generalizing ns with
  | nil => exact ⟨fun n => (or_iff_right List.not_mem_nil).symm, id⟩
  | cons name names ih =>
    obtain ⟨hmem, hordered⟩ := ih (insertName name ns)
    refine ⟨fun n => ?_, fun h => hordered (insertName_ordered h)⟩
    rw [List.foldl_cons, hmem, mem_insertName, List.mem_cons, or_left_comm, or_assoc]

theorem mem_childNames {t : MemoryTree L} {path name : String} : name ∈ t.childNames path ↔
    ∃ path' ∈ t.stored, childName? (childPrefix path) path' = some name := by
  rw [childNames, (insertNames _ []).1, or_iff_left List.not_mem_nil, List.mem_filterMap]

theorem childNames_ordered (t : MemoryTree L) (path : String) :
    (t.childNames path).Pairwise (· < ·) :=
  (insertNames _ []).2 .nil

/-! ## Nodes -/

/-- Only valid paths have something on them. -/
def Sound (t : MemoryTree L) : Prop := ∀ path ∈ t.stored, Path.valid path = true

section
open PeerLink.Path
variable {t : MemoryTree L} {xs : List (List Char)} {path name : String}

theorem names_snoc {x : List Char} (hxs : ∀ y ∈ xs, IsName y) (hx : IsName x) :
    ∀ y ∈ xs ++ [x], IsName y :=
  List.forall_mem_append.mpr ⟨hxs, List.forall_mem_singleton.mpr hx⟩

theorem ofNames_snoc_ne_root {x : List Char} (h : ∀ y ∈ xs ++ [x], IsName y) :
    ofNames (xs ++ [x]) ≠ "/" := by
  intro hroot
  have hnil := names_ofNames h
  rw [hroot] at hnil
  exact List.append_ne_nil_of_right_ne_nil xs (List.cons_ne_nil x _) hnil.symm

/-- A path below the root is stored, or stands before one that is, if its names come first. -/
theorem leads_iff_covers (hxs : ∀ x ∈ xs, IsName x) (hne : xs ≠ []) (hpath : valid path = true) :
    path = ofNames xs ∨ (below? (spell xs ++ ['/']) path).isSome = true ↔
      Covers (ofNames xs) path := by
  obtain ⟨ys, rfl, hgood⟩ := valid_iff.mp hpath
  have hys : ∀ y ∈ ys, IsName y := fun y hy => (hgood y hy).1
  rw [Covers, names_ofNames hxs, names_ofNames hys]
  constructor
  · rintro (hsame | hbelow)
    · have hnames : ys = xs := by rw [← names_ofNames hys, hsame, names_ofNames hxs]
      exact hnames ▸ List.prefix_rfl
    · obtain ⟨rest, hrest⟩ := Option.isSome_iff_exists.mp hbelow
      by_cases hroot : ys = []
      · -- The root itself is no longer than one slash.
        subst hroot
        obtain rfl := below?_root hrest
        have hlist := below?_eq_some.mp hrest
        rw [List.append_nil, show (ofNames []).toList = [] ++ ['/'] from rfl] at hlist
        obtain ⟨x, zs, rfl⟩ := List.exists_cons_of_ne_nil hne
        exact nomatch (spell_cons x zs).symm.trans (List.append_inj' hlist rfl).1.symm
      · rw [(below?_ofNames hxs hys hroot).mp hrest]
        exact List.prefix_append xs _
  · rintro ⟨zs, rfl⟩
    cases zs with
    | nil => exact .inl (congrArg ofNames (List.append_nil xs))
    | cons z zs =>
      right
      have hz : ∀ y ∈ z :: zs, '/' ∉ y := fun y hy =>
        (hys y (List.mem_append_right xs hy)).single
      obtain ⟨hz, hzs⟩ := List.forall_mem_cons.mp hz
      rw [(below?_ofNames hxs hys (List.append_ne_nil_of_left_ne_nil hne _)).mpr
        (congrArg _ (segments_spell hz hzs).symm)]
      rfl

theorem Sound.hasNode_iff (h : t.Sound) (hxs : ∀ x ∈ xs, IsName x) :
    t.hasNode (ofNames xs) = true ↔
      ofNames xs = "/" ∨ ∃ path ∈ t.stored, Covers (ofNames xs) path := by
  rw [hasNode, Bool.or_eq_true, decide_eq_true_iff, List.any_eq_true]
  by_cases hroot : xs = []
  · rw [hroot]
    exact iff_of_true (.inl rfl) (.inl rfl)
  · refine or_congr_right (exists_congr fun path => and_congr_right fun hpath => ?_)
    rw [Bool.or_eq_true, decide_eq_true_iff, toList_ofNames hroot,
      leads_iff_covers hxs hroot (h path hpath)]

/-- The names below a path are those that come next on paths further down. -/
theorem Sound.mem_childNames (h : t.Sound) (hxs : ∀ x ∈ xs, IsName x) :
    name ∈ t.childNames (ofNames xs) ↔ IsName name.toList ∧
      ∃ path ∈ t.stored, Covers (ofNames (xs ++ [name.toList])) path := by
  rw [MemoryTree.mem_childNames, childPrefix_ofNames hxs]
  constructor
  · rintro ⟨path, hpath, hname⟩
    obtain ⟨ys, rfl, hgood⟩ := valid_iff.mp (h path hpath)
    have hys : ∀ y ∈ ys, IsName y := fun y hy => (hgood y hy).1
    obtain ⟨zs, rfl⟩ := (childName?_ofNames hxs hys).mp hname
    have hname' : IsName name.toList := hys _ (List.mem_append_right xs List.mem_cons_self)
    refine ⟨hname', _, hpath, ?_⟩
    rw [Covers, names_ofNames (names_snoc hxs hname'), names_ofNames hys]
    exact (List.prefix_append_right_inj xs).mpr (List.prefix_append [name.toList] zs)
  · rintro ⟨hname, path, hpath, hcovers⟩
    obtain ⟨ys, rfl, hgood⟩ := valid_iff.mp (h path hpath)
    have hys : ∀ y ∈ ys, IsName y := fun y hy => (hgood y hy).1
    rw [Covers, names_ofNames (names_snoc hxs hname), names_ofNames hys] at hcovers
    obtain ⟨zs, rfl⟩ := hcovers
    refine ⟨_, hpath, (childName?_ofNames hxs hys).mpr ⟨zs, ?_⟩⟩
    rw [List.append_assoc, List.singleton_append]

end

theorem listChildren_eq_ok {t : MemoryTree L} {path : String} {rows : List Row} :
    t.listChildren path = .ok rows ↔ t.hasNode path = true ∧
      rows = (t.childNames path).map fun n => ⟨n, t.nodeInfo (Path.child path n)⟩ := by
  unfold listChildren
  split
  · rename_i hnode
    rw [Except.ok.injEq, eq_comm, and_iff_right hnode]
    rfl
  · rename_i hnode
    exact iff_of_false nofun fun h => hnode h.1

theorem names_listChildren {t : MemoryTree L} {path : String} {rows : List Row}
    (h : t.listChildren path = .ok rows) : rows.map Row.name = t.childNames path := by
  rw [(listChildren_eq_ok.mp h).2, List.map_map]
  exact List.map_id _

/-! ## Edits -/

section
variable {edits : List Edit} {path : String}

theorem ofEdits_snoc (edits : List Edit) (e : Edit) :
    (ofEdits (edits ++ [e]) : MemoryTree L) = (ofEdits edits).edit e :=
  List.foldl_append.trans rfl

theorem contains_insert {κ α : Type} [DecidableEq κ] (t : Table κ α) (k k' : κ) (a : α) :
    (t.insert k a).contains k' = true ↔ k' = k ∨ t.contains k' = true := by
  rw [Table.contains, Table.get?_insert]
  split_ifs with heq
  · exact iff_of_true rfl (.inl heq)
  · exact (or_iff_right heq).symm

theorem hasAction_snoc {e : Edit} : HasAction (edits ++ [e]) path ↔
    HasAction edits path ∨ ∃ action, e = .act path action := by
  rw [HasAction, HasAction, ← exists_or]
  refine exists_congr fun action => ?_
  rw [List.mem_append, List.mem_singleton, eq_comm]

theorem hasValue_snoc {e : Edit} : HasValue (edits ++ [e]) path ↔
    HasValue edits path ∨ PutsValue edits e path := by
  constructor
  · rintro ⟨before, e', after, hsplit, hputs⟩
    obtain ⟨rfl, rfl⟩ | ⟨after', hbefore⟩ := split_snoc hsplit
    · exact .inr hputs
    · exact .inl ⟨before, e', after', hbefore, hputs⟩
  · rintro (⟨before, e', after, rfl, hputs⟩ | hputs)
    · exact ⟨before, e', after ++ [e], by rw [List.append_assoc, List.cons_append], hputs⟩
    · exact ⟨edits, e, [], rfl, hputs⟩

theorem actions_ofEdits (edits : List Edit) (path : String) :
    (ofEdits edits : MemoryTree L).actions.contains path = true ↔ HasAction edits path := by
  induction edits using List.reverseRecOn with
  | nil => exact iff_of_false nofun nofun
  | append_singleton edits e ih =>
    rw [ofEdits_snoc, hasAction_snoc, ← ih]
    cases e with
    | set now path' value => exact (or_iff_left nofun).symm
    | write now path' value permit =>
      rw [or_iff_left nofun]
      simp only [edit, writeValue]
      split_ifs <;> rfl
    | act path' action =>
      simp only [edit, addAction]
      rw [contains_insert, or_comm]
      refine or_congr_right ⟨?_, ?_⟩
      · rintro rfl
        exact ⟨action, rfl⟩
      · rintro ⟨_, heq⟩
        cases heq
        rfl

theorem putsValue_set {now : Timestamp} {path' : String} {value : Value} :
    PutsValue edits (.set now path' value) path ↔ path = path' := by
  constructor
  · rintro (⟨_, _, heq⟩ | ⟨_, _, _, heq, -⟩)
    · cases heq
      rfl
    · cases heq
  · rintro rfl
    exact .inl ⟨now, value, rfl⟩

theorem putsValue_write {now : Timestamp} {path' : String} {value : Value} {permit : Permission} :
    PutsValue edits (.write now path' value permit) path ↔
      path = path' ∧ permit.mayWrite = true ∧ ¬ HasAction edits path' := by
  constructor
  · rintro (⟨_, _, heq⟩ | ⟨_, _, _, heq, h⟩)
    · cases heq
    · cases heq
      exact ⟨rfl, h⟩
  · rintro ⟨rfl, h⟩
    exact .inr ⟨now, value, permit, rfl, h⟩

theorem values_ofEdits (edits : List Edit) (path : String) :
    (ofEdits edits : MemoryTree L).values.contains path = true ↔ HasValue edits path := by
  induction edits using List.reverseRecOn with
  | nil =>
    refine iff_of_false nofun fun ⟨before, e, after, hsplit, _⟩ => ?_
    exact absurd hsplit.symm (List.append_ne_nil_of_right_ne_nil _ (List.cons_ne_nil e after))
  | append_singleton edits e ih =>
    rw [ofEdits_snoc, hasValue_snoc, ← ih]
    cases e with
    | set now path' value =>
      simp only [edit, setValue]
      rw [contains_insert, putsValue_set, or_comm]
    | write now path' value permit =>
      have haction := actions_ofEdits (L := L) edits path'
      rw [putsValue_write, ← haction]
      simp only [edit, writeValue]
      split_ifs with hpermit hact
      · rw [or_iff_left]
        rw [Bool.not_eq_true'] at hpermit
        exact fun h => Bool.noConfusion (hpermit.symm.trans h.2.1)
      · rw [or_iff_left]
        exact fun h => h.2.2 hact
      · simp only [setValue]
        rw [contains_insert, or_comm, and_iff_left]
        exact ⟨by simpa using hpermit, hact⟩
    | act path' action =>
      refine (or_iff_left ?_).symm
      rintro (⟨_, _, heq⟩ | ⟨_, _, _, heq, -⟩) <;> cases heq

theorem mem_stored_ofEdits : path ∈ (ofEdits edits : MemoryTree L).stored ↔ Holds edits path := by
  rw [stored, List.mem_append, Table.mem_keys, Table.mem_keys, values_ofEdits, actions_ofEdits]
  rfl

theorem Holds.mem (h : Holds edits path) : ∃ e ∈ edits, e.path = path := by
  obtain ⟨before, e, after, rfl, ⟨now, value, rfl⟩ | ⟨now, value, permit, rfl, -⟩⟩ |
    ⟨action, haction⟩ := h
  · exact ⟨_, List.mem_append_right before List.mem_cons_self, rfl⟩
  · exact ⟨_, List.mem_append_right before List.mem_cons_self, rfl⟩
  · exact ⟨_, haction, rfl⟩

theorem ofEdits_sound (h : ∀ e ∈ edits, Path.valid e.path = true) :
    (ofEdits edits : MemoryTree L).Sound := by
  intro path hpath
  obtain ⟨e, he, rfl⟩ := (mem_stored_ofEdits.mp hpath).mem
  exact h e he

end

/-! ## The hierarchy -/

section
open PeerLink.Path
variable {edits : List Edit} {path name : String} {xs : List (List Char)}

theorem marked_nodeInfo (edits : List Edit) (path : String) :
    Marked edits path ((ofEdits edits : MemoryTree L).nodeInfo path) := by
  have haction := actions_ofEdits (L := L) edits path
  have hvalue := values_ofEdits (L := L) edits path
  refine ⟨fun h => ?_, fun h hv => ?_, fun h => ?_⟩
  · rw [nodeInfo, if_pos (haction.mpr h)]
    rfl
  · rw [nodeInfo, if_neg (h ∘ haction.mp), if_pos (hvalue.mpr hv)]
    rfl
  · rw [nodeInfo, if_neg fun ha => h (.inr (haction.mp ha)),
      if_neg fun hv => h (.inl (hvalue.mp hv))]
    rfl

theorem Leads.above {x : List Char} (hxs : ∀ y ∈ xs ++ [x], IsName y)
    (hleads : Leads edits (ofNames (xs ++ [x]))) : Leads edits (ofNames xs) := by
  obtain hroot | ⟨path, hholds, hcovers⟩ := hleads
  · exact absurd hroot (ofNames_snoc_ne_root hxs)
  · refine .inr ⟨path, hholds, ?_⟩
    rw [Covers, names_ofNames hxs] at hcovers
    rw [Covers, names_ofNames fun y hy => hxs y (List.mem_append_left _ hy)]
    exact (List.prefix_append xs [x]).trans hcovers

variable (h : ∀ e ∈ edits, valid e.path = true)
include h

theorem hasNode_ofEdits (hxs : ∀ x ∈ xs, IsName x) :
    (ofEdits edits : MemoryTree L).hasNode (ofNames xs) = true ↔ Leads edits (ofNames xs) := by
  rw [(ofEdits_sound h).hasNode_iff hxs]
  simp only [mem_stored_ofEdits]
  rfl

theorem lists_iff (hxs : ∀ x ∈ xs, IsName x) :
    (∃ rows, (ofEdits edits : MemoryTree L).listChildren (ofNames xs) = .ok rows) ↔
      Leads edits (ofNames xs) := by
  rw [← hasNode_ofEdits (L := L) h hxs]
  exact ⟨fun ⟨rows, hrows⟩ => (listChildren_eq_ok.mp hrows).1,
    fun hnode => ⟨_, listChildren_eq_ok.mpr ⟨hnode, rfl⟩⟩⟩

/-- What a path lists are the names with which paths go on. -/
theorem mem_childNames_ofEdits (hxs : ∀ x ∈ xs, IsName x) :
    name ∈ (ofEdits edits : MemoryTree L).childNames (ofNames xs) ↔
      IsName name.toList ∧ Leads edits (ofNames (xs ++ [name.toList])) := by
  rw [(ofEdits_sound h).mem_childNames hxs]
  simp only [mem_stored_ofEdits]
  exact and_congr_right fun hname =>
    (or_iff_right (ofNames_snoc_ne_root (names_snoc hxs hname))).symm

/-- All that stands before a valid path is valid. -/
theorem Leads.valid (hxs : ∀ x ∈ xs, IsName x) (hleads : Leads edits (ofNames xs)) :
    valid (ofNames xs) = true := by
  obtain hroot | ⟨path, hholds, hcovers⟩ := hleads
  · rw [hroot]
    rfl
  · obtain ⟨e, he, rfl⟩ := hholds.mem
    obtain ⟨ys, hpath, hgood⟩ := valid_iff.mp (h e he)
    rw [hpath, Covers, names_ofNames hxs, names_ofNames fun y hy => (hgood y hy).1] at hcovers
    exact valid_iff.mpr ⟨xs, rfl, fun x hx => hgood x (hcovers.subset hx)⟩

theorem reached_iff : (ofEdits edits : MemoryTree L).Reached path ↔
    valid path = true ∧ Leads edits path := by
  constructor
  · intro hreached
    induction hreached with
    | root => exact ⟨rfl, .inl rfl⟩
    | @down path rows row _ hrows hrow ih =>
      obtain ⟨xs, rfl, hgood⟩ := valid_iff.mp ih.1
      have hxs : ∀ x ∈ xs, IsName x := fun x hx => (hgood x hx).1
      have hname : row.name ∈ (ofEdits edits : MemoryTree L).childNames (ofNames xs) :=
        names_listChildren hrows ▸ List.mem_map_of_mem hrow
      obtain ⟨hname, hleads⟩ := (mem_childNames_ofEdits h hxs).mp hname
      rw [child_ofNames hxs]
      exact ⟨hleads.valid h (names_snoc hxs hname), hleads⟩
  · rintro ⟨hvalid, hleads⟩
    obtain ⟨xs, rfl, hgood⟩ := valid_iff.mp hvalid
    have hxs : ∀ x ∈ xs, IsName x := fun x hx => (hgood x hx).1
    clear hgood hvalid
    induction xs using List.reverseRecOn with
    | nil => exact .root
    | append_singleton xs x ih =>
      have habove := hleads.above hxs
      obtain ⟨hxs', hx⟩ := List.forall_mem_append.mp hxs
      obtain ⟨rows, hrows⟩ := (lists_iff (L := L) h hxs').mpr habove
      have hname : String.ofList x ∈ rows.map Row.name := by
        rw [names_listChildren hrows, mem_childNames_ofEdits h hxs', String.toList_ofList]
        exact ⟨List.forall_mem_singleton.mp hx, hleads⟩
      obtain ⟨row, hrow, hrowname⟩ := List.mem_map.mp hname
      have hdown := (ih habove hxs').down hrows hrow
      rwa [hrowname, child_ofNames hxs', String.toList_ofList] at hdown

/-- Whatever was put on valid paths, in whatever order. -/
theorem ofEdits_hierarchical : (ofEdits edits : MemoryTree L).Hierarchical edits where
  lists := fun path hpath => by
    obtain ⟨xs, rfl, hgood⟩ := valid_iff.mp hpath
    exact lists_iff h fun x hx => (hgood x hx).1
  refuses := fun path hpath hleads => by
    obtain ⟨xs, rfl, hgood⟩ := valid_iff.mp hpath
    rw [listChildren, if_neg]
    exact hleads ∘ (hasNode_ofEdits h fun x hx => (hgood x hx).1).mp
  ordered := fun path rows hrows => by
    rw [names_listChildren hrows]
    exact childNames_ordered _ path
  children := fun path rows hpath hrows name => by
    obtain ⟨xs, rfl, hgood⟩ := valid_iff.mp hpath
    have hxs : ∀ x ∈ xs, IsName x := fun x hx => (hgood x hx).1
    rw [names_listChildren hrows, mem_childNames_ofEdits h hxs, child_ofNames hxs]
    exact and_congr_right fun hname => (lists_iff h (names_snoc hxs hname)).symm
  marked := fun path rows hrows row hrow => by
    rw [(listChildren_eq_ok.mp hrows).2] at hrow
    obtain ⟨name, -, rfl⟩ := List.mem_map.mp hrow
    exact marked_nodeInfo edits (child path name)
  walk := fun path => reached_iff h
  refused := fun now path value permit e he => by
    unfold writeValue at he ⊢
    split_ifs at he ⊢
    · rfl
    · rfl

omit h

/-- Names that begin alike, a node with a value and with nodes below it, and a write that comes too
late. -/
def siblings : List Edit :=
  [.set ⟨0, 0⟩ "/a/x" .null, .set ⟨0, 0⟩ "/a" .null, .act "/ab/run" .echo,
    .write ⟨0, 0⟩ "/ab/run" .null .write]

theorem siblings_hierarchical : (∀ e ∈ siblings, valid e.path = true) ∧
    (ofEdits siblings : MemoryTree Unit).Hierarchical siblings :=
  have hvalid : ∀ e ∈ siblings, valid e.path = true := by decide
  ⟨hvalid, ofEdits_hierarchical hvalid⟩

example : (ofEdits siblings : MemoryTree Unit).childNames "/" = ["a", "ab"] := by decide

end

end MemoryTree
end PeerLink
