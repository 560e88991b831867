import Mathlib.Data.List.Basic
import PeerLink.Tree.Memory

/-! # Paths as names

* `Path.ofNames`: the path on which some names stand, one below the other; `Path.names`: the names
  on a path.
* `Path.valid_iff`: the valid paths are those of good names.
* `Path.child`: the path of a name below a node.
* `MemoryTree.childName?_ofNames`: of a path further down, the name that comes next is found.
-/

namespace PeerLink
set_option autoImplicit false

namespace Path

/-- Names one below the other, each with a slash before it. -/
def spell (xs : List (List Char)) : List Char := xs.flatMap ('/' :: ·)

def ofNames : List (List Char) → String
  | [] => "/"
  | x :: xs => String.ofList (spell (x :: xs))

/-- The names on a path, from the root on. -/
def names (path : String) : List (List Char) :=
  if path = "/" then [] else segments (path.toList.drop 1)

/-- The path of a name below a node. -/
def child (path name : String) : String :=
  String.ofList (MemoryTree.childPrefix path) ++ name

/-- The second path is that of the node itself, or of one below it. -/
def Covers (path path' : String) : Prop := names path <+: names path'

/-- A single segment that is not empty. -/
structure IsName (x : List Char) : Prop where
  nonempty : x ≠ []
  single : '/' ∉ x

variable {xs ys : List (List Char)} {x : List Char}

/-! ## Segments -/

theorem spell_cons (x : List Char) (xs : List (List Char)) :
    spell (x :: xs) = '/' :: (x ++ spell xs) := List.flatMap_cons

theorem spell_append (xs ys : List (List Char)) : spell (xs ++ ys) = spell xs ++ spell ys :=
  List.flatMap_append

theorem segments_slash (cs : List Char) : segments ('/' :: cs) = [] :: segments cs := by
  rw [segments, if_pos rfl]

theorem segments_cons {c : Char} (hc : c ≠ '/') {cs : List Char}
    (h : segments cs = x :: xs) : segments (c :: cs) = (c :: x) :: xs := by
  rw [segments, if_neg hc, h]

theorem spell_segments (cs : List Char) : spell (segments cs) = '/' :: cs := by
  induction cs with
  | nil => rfl
  | cons c cs ih =>
    obtain ⟨x, xs, hsegments⟩ := List.exists_cons_of_ne_nil (segments_ne_nil cs)
    by_cases hc : c = '/'
    · rw [hc, segments_slash, spell_cons, ih, List.nil_append]
    · rw [hsegments, spell_cons] at ih
      rw [segments_cons hc hsegments, spell_cons, List.cons_append, (List.cons.inj ih).2]

theorem segments_single (cs : List Char) : ∀ x ∈ segments cs, '/' ∉ x := by
  induction cs with
  | nil =>
    intro x hx
    rw [List.mem_singleton.mp hx]
    exact List.not_mem_nil
  | cons c cs ih =>
    obtain ⟨x, xs, hsegments⟩ := List.exists_cons_of_ne_nil (segments_ne_nil cs)
    rw [hsegments, List.forall_mem_cons] at ih
    by_cases hc : c = '/'
    · rw [hc, segments_slash, hsegments, List.forall_mem_cons, List.forall_mem_cons]
      exact ⟨List.not_mem_nil, ih⟩
    · rw [segments_cons hc hsegments, List.forall_mem_cons]
      refine ⟨fun hmem => ?_, ih.2⟩
      obtain hslash | hslash := List.mem_cons.mp hmem
      · exact hc hslash.symm
      · exact ih.1 hslash

theorem segments_spell (hx : '/' ∉ x) (hxs : ∀ y ∈ xs, '/' ∉ y) :
    segments (x ++ spell xs) = x :: xs := by
  induction xs generalizing x with
  | nil =>
    induction x with
    | nil => rfl
    | cons c x ih =>
      obtain ⟨hc, hx⟩ := List.ne_and_not_mem_of_not_mem_cons hx
      exact segments_cons hc.symm (ih hx)
  | cons y ys ihs =>
    obtain ⟨hy, hys⟩ := List.forall_mem_cons.mp hxs
    induction x with
    | nil => rw [List.nil_append, spell_cons, segments_slash, ihs hy hys]
    | cons c x ih =>
      obtain ⟨hc, hx⟩ := List.ne_and_not_mem_of_not_mem_cons hx
      exact segments_cons hc.symm (ih hx)

/-- Segments can be told from what is spelt. -/
theorem spell_inj (hxs : ∀ x ∈ xs, '/' ∉ x) (hys : ∀ y ∈ ys, '/' ∉ y)
    (h : spell xs = spell ys) : xs = ys := by
  cases xs with
  | nil =>
    cases ys with
    | nil => rfl
    | cons y ys => cases h
  | cons x xs =>
    cases ys with
    | nil => cases h
    | cons y ys =>
      obtain ⟨hx, hxs⟩ := List.forall_mem_cons.mp hxs
      obtain ⟨hy, hys⟩ := List.forall_mem_cons.mp hys
      rw [spell_cons, spell_cons] at h
      rw [← segments_spell hx hxs, ← segments_spell hy hys, (List.cons.inj h).2]

theorem head?_segments (cs : List Char) :
    (segments cs).head? = some (cs.takeWhile (· != '/')) := by
  induction cs with
  | nil => rfl
  | cons c cs ih =>
    obtain ⟨x, xs, hsegments⟩ := List.exists_cons_of_ne_nil (segments_ne_nil cs)
    by_cases hc : c = '/'
    · rw [hc, segments_slash]
      rfl
    · rw [hsegments] at ih
      rw [segments_cons hc hsegments, List.takeWhile_cons, if_pos (bne_iff_ne.mpr hc),
        ← Option.some.inj ih]
      rfl

/-! ## Paths -/

theorem toList_ofNames (h : xs ≠ []) : (ofNames xs).toList = spell xs := by
  cases xs with
  | nil => exact absurd rfl h
  | cons x xs => exact String.toList_ofList

theorem ofNames_ne_root (hx : IsName x) : ofNames (x :: xs) ≠ "/" := by
  intro h
  have hlist : spell (x :: xs) = ['/'] := by
    rw [← toList_ofNames (List.cons_ne_nil x xs), h]
    rfl
  rw [spell_cons] at hlist
  exact hx.nonempty (List.append_eq_nil_iff.mp (List.cons.inj hlist).2).1

theorem names_ofNames (h : ∀ x ∈ xs, IsName x) : names (ofNames xs) = xs := by
  cases xs with
  | nil => rfl
  | cons x xs =>
    obtain ⟨hx, hxs⟩ := List.forall_mem_cons.mp h
    rw [names, if_neg (ofNames_ne_root hx), toList_ofNames (List.cons_ne_nil x xs), spell_cons,
      List.drop_one, List.tail_cons, segments_spell hx.single fun y hy => (hxs y hy).single]

theorem childPrefix_ofNames (h : ∀ x ∈ xs, IsName x) :
    MemoryTree.childPrefix (ofNames xs) = spell xs ++ ['/'] := by
  cases xs with
  | nil => rfl
  | cons x xs =>
    rw [MemoryTree.childPrefix, if_neg (ofNames_ne_root (h x List.mem_cons_self)),
      toList_ofNames (List.cons_ne_nil x xs)]

theorem child_ofNames (h : ∀ x ∈ xs, IsName x) (name : String) :
    child (ofNames xs) name = ofNames (xs ++ [name.toList]) := by
  have hne : xs ++ [name.toList] ≠ [] := List.append_ne_nil_of_right_ne_nil _ (List.cons_ne_nil _ _)
  rw [← String.toList_inj, toList_ofNames hne, child, childPrefix_ofNames h, String.toList_append,
    String.toList_ofList, spell_append, List.append_assoc]
  exact congrArg _ (congrArg _ (List.append_nil _).symm)

theorem IsName.of_good (hgood : goodSegment x = true) (hsingle : '/' ∉ x) : IsName x := by
  refine ⟨fun hnil => ?_, hsingle⟩
  rw [hnil] at hgood
  exact absurd hgood (by decide)

/-- The valid paths are those of good names. -/
theorem valid_iff {path : String} : valid path = true ↔
    ∃ xs, path = ofNames xs ∧ ∀ x ∈ xs, IsName x ∧ goodSegment x = true := by
  constructor
  · intro h
    unfold valid at h
    split at h
    · rename_i hroot
      exact ⟨[], String.toList_inj.mp hroot, nofun⟩
    · rename_i rest _ hrest
      refine ⟨segments rest, ?_, fun y hy => ?_⟩
      · rw [← String.toList_inj, hrest, ← spell_segments, toList_ofNames (segments_ne_nil rest)]
      · have hgood := List.all_eq_true.mp h y hy
        exact ⟨.of_good hgood (segments_single rest y hy), hgood⟩
    · cases h
  · rintro ⟨xs, rfl, hnames⟩
    cases xs with
    | nil => rfl
    | cons x xs =>
      obtain ⟨⟨hx, -⟩, hxs⟩ := List.forall_mem_cons.mp hnames
      obtain ⟨c, cs, rfl⟩ := List.exists_cons_of_ne_nil hx.nonempty
      have hsegments := segments_spell hx.single fun y hy => (hxs y hy).1.single
      rw [valid, toList_ofNames (List.cons_ne_nil _ xs), spell_cons]
      show (segments (c :: cs ++ spell xs)).all goodSegment = true
      rw [hsegments]
      exact List.all_eq_true.mpr fun y hy => (hnames y hy).2

end Path

/-! ## Looking down -/

namespace MemoryTree
open PeerLink.Path
variable {xs ys : List (List Char)}

theorem below?_eq_some {start rest : List Char} {path : String} :
    below? start path = some rest ↔ path.toList = start ++ rest := by
  unfold below?
  split
  · rename_i hprefix
    obtain ⟨rest', hrest⟩ := List.isPrefixOf_iff_prefix.mp hprefix
    rw [← hrest, List.drop_left, Option.some.injEq, List.append_right_inj]
  · rename_i hprefix
    refine iff_of_false nofun fun h => hprefix (List.isPrefixOf_iff_prefix.mpr ?_)
    rw [h]
    exact List.prefix_append start rest

/-- What stands behind a path and a slash are the names further down. -/
theorem below?_ofNames (hxs : ∀ x ∈ xs, IsName x) (hys : ∀ y ∈ ys, IsName y)
    (hne : ys ≠ []) {rest : List Char} :
    below? (spell xs ++ ['/']) (ofNames ys) = some rest ↔ ys = xs ++ segments rest := by
  have hwhole : spell xs ++ ['/'] ++ rest = spell (xs ++ segments rest) := by
    rw [spell_append, spell_segments, List.append_assoc, List.singleton_append]
  rw [below?_eq_some, toList_ofNames hne, hwhole]
  refine ⟨spell_inj (fun z hz => (hys z hz).single) fun z hz => ?_, congrArg spell⟩
  obtain hz | hz := List.mem_append.mp hz
  · exact (hxs z hz).single
  · exact segments_single rest z hz

/-- The root stands behind no path, but with an empty name behind itself. -/
theorem below?_root {xs : List (List Char)} {rest : List Char}
    (h : below? (spell xs ++ ['/']) "/" = some rest) : rest = [] := by
  have hlist := below?_eq_some.mp h
  rw [List.append_assoc, show "/".toList = ['/'] from rfl] at hlist
  have hlength := congrArg List.length hlist
  rw [List.length_append, List.length_append, List.length_singleton] at hlength
  exact List.length_eq_zero_iff.mp (by omega)

/-- The next name on a path that leads further down. -/
theorem childName?_ofNames (hxs : ∀ x ∈ xs, IsName x) (hys : ∀ y ∈ ys, IsName y)
    {name : String} : childName? (spell xs ++ ['/']) (ofNames ys) = some name ↔
      ∃ zs, ys = xs ++ name.toList :: zs := by
  unfold childName?
  by_cases hroot : ys = []
  · subst hroot
    refine iff_of_false (fun h => ?_) fun ⟨zs, hzs⟩ =>
      List.append_ne_nil_of_right_ne_nil xs (List.cons_ne_nil _ zs) hzs.symm
    split at h
    · cases h
    · rename_i rest hrest
      rw [below?_root hrest] at h
      cases h
  · constructor
    · intro h
      split at h
      · cases h
      · rename_i rest hrest
        rw [below?_ofNames hxs hys hroot] at hrest
        obtain ⟨x, zs, hsegments⟩ := List.exists_cons_of_ne_nil (segments_ne_nil rest)
        have hhead := head?_segments rest
        rw [hsegments, List.head?_cons, Option.some.injEq] at hhead
        dsimp only at h
        split at h
        · cases h
        · obtain rfl := Option.some.inj h
          rw [String.toList_ofList, ← hhead]
          exact ⟨zs, by rw [hrest, hsegments]⟩
    · rintro ⟨zs, rfl⟩
      have hname : IsName name.toList := hys _ (List.mem_append_right _ List.mem_cons_self)
      have hzs : ∀ z ∈ zs, '/' ∉ z := fun z hz =>
        (hys z (List.mem_append_right _ (List.mem_cons_of_mem _ hz))).single
      have hsegments := segments_spell hname.single hzs
      have hhead := head?_segments (name.toList ++ spell zs)
      rw [hsegments, List.head?_cons, Option.some.injEq] at hhead
      have hbelow : below? (spell xs ++ ['/']) (ofNames (xs ++ name.toList :: zs)) =
          some (name.toList ++ spell zs) := by
        rw [below?_ofNames hxs hys hroot, hsegments]
      rw [hbelow]
      dsimp only
      rw [← hhead, String.ofList_toList, if_neg]
      rw [List.isEmpty_iff]
      exact hname.nonempty

end MemoryTree
end PeerLink
