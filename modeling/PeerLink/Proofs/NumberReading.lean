import Mathlib.Data.Nat.Digits.Lemmas
import PeerLink.Proofs.ShortestFrames

/-! # What numbers are read from

* `Varint.Whole`: bytes of which all but the last say that another follows.
* `Varint.denoted`: the number that such bytes stand for; `Varint.Spells`: the number that is read
  from them, which is the same as long as it has no more than 64 bits.
* `Frame.Layout`: the bytes of a frame, part by part; `Frame.Layout.Tells`: what they say of the
  numbers of a frame that was read from them.
* `Varint.reads_low_bits`: what is read of every byte string, and of every frame.
-/

namespace PeerLink
set_option autoImplicit false

/-! ## Numbers -/

namespace Varint

/-- The bytes of one number: all but the last say that another follows. -/
inductive Whole : Bytes → Prop
  | last {b : UInt8} (hlast : b.toNat < 128) : Whole [b]
  | more {b : UInt8} {bs : Bytes} (hmore : 128 ≤ b.toNat) (rest : Whole bs) : Whole (b :: bs)

/-- The low seven bits of each byte are a digit, the lowest first. -/
def denoted (bs : Bytes) : Nat := Nat.ofDigits 128 (bs.map fun b => b.toNat % 128)

/-- The bytes of one number, of at most ten bytes, from which a number is read. -/
structure Spells (bs : Bytes) (v : Nat) : Prop where
  whole : Whole bs
  short : bs.length ≤ 10
  value : v = denoted bs % 2 ^ 64

theorem denoted_cons (b : UInt8) (bs : Bytes) :
    denoted (b :: bs) = b.toNat % 128 + 128 * denoted bs := Nat.ofDigits_cons ..

theorem denoted_single {b : UInt8} (h : b.toNat < 128) : denoted [b] = b.toNat := by
  rw [denoted_cons, Nat.mod_eq_of_lt h]
  rfl

/-- What a byte that says that another follows makes of what is read behind it. -/
def Reading.behind (b : UInt8) : Reading → Reading
  | done v rest => done (b.toNat % 128 + 128 * v) rest
  | r => r

theorem behind_eq_done {b : UInt8} {r : Reading} {v : Nat} {rest : Bytes} :
    r.behind b = .done v rest ↔ ∃ w, r = .done w rest ∧ v = b.toNat % 128 + 128 * w := by
  cases r with
  | done w rest' =>
    constructor
    · rintro ⟨⟩
      exact ⟨w, rfl, rfl⟩
    · rintro ⟨w', ⟨⟩, rfl⟩
      rfl
  | short | long => exact iff_of_false nofun fun ⟨_, h, _⟩ => nomatch h

theorem behind_eq_short {b : UInt8} {r : Reading} : r.behind b = .short ↔ r = .short := by
  cases r <;> simp [Reading.behind]

theorem behind_eq_long {b : UInt8} {r : Reading} : r.behind b = .long ↔ r = .long := by
  cases r <;> simp [Reading.behind]

theorem groups_last {b : UInt8} (room : Nat) (bs : Bytes) (h : b.toNat < 128) :
    groups (room + 1) (b :: bs) = .done b.toNat bs := by
  rw [groups, if_pos h]

theorem groups_more {b : UInt8} (room : Nat) (bs : Bytes) (h : 128 ≤ b.toNat) :
    groups (room + 1) (b :: bs) = (groups room bs).behind b := by
  rw [groups, if_neg (Nat.not_lt.mpr h)]
  cases groups room bs <;> rfl

/-- A number is found if its bytes are in front and there is room for them. -/
theorem groups_eq_done {room v : Nat} {bs rest : Bytes} :
    groups room bs = .done v rest ↔
      ∃ front, bs = front ++ rest ∧ Whole front ∧ front.length ≤ room ∧ v = denoted front := by
  induction room generalizing bs v with
  | zero =>
    refine iff_of_false nofun ?_
    rintro ⟨front, -, hwhole, hlen, -⟩
    cases hwhole <;> exact absurd hlen (Nat.not_succ_le_zero _)
  | succ room ih =>
    constructor
    · intro h
      cases bs with
      | nil => cases h
      | cons b bs =>
        by_cases hb : b.toNat < 128
        · rw [groups_last room bs hb] at h
          cases h
          exact ⟨[b], rfl, .last hb, Nat.le_add_left 1 room, (denoted_single hb).symm⟩
        · rw [groups_more room bs (Nat.not_lt.mp hb), behind_eq_done] at h
          obtain ⟨w, hw, rfl⟩ := h
          obtain ⟨front, rfl, hwhole, hlen, rfl⟩ := ih.mp hw
          exact ⟨b :: front, rfl, .more (Nat.not_lt.mp hb) hwhole, Nat.succ_le_succ hlen,
            (denoted_cons b front).symm⟩
    · rintro ⟨front, rfl, hwhole, hlen, rfl⟩
      cases hwhole with
      | last hlast =>
        rw [denoted_single hlast]
        exact groups_last room rest hlast
      | @more b bs hmore hrest =>
        have hfound := ih.mpr ⟨bs, rfl, hrest, Nat.le_of_succ_le_succ hlen, rfl⟩
        rw [List.cons_append, groups_more room _ hmore, hfound, denoted_cons]
        rfl

/-- As many bytes as there is room for all say that another follows. -/
theorem groups_eq_long {room : Nat} {bs : Bytes} :
    groups room bs = .long ↔ room ≤ bs.length ∧ ∀ b ∈ bs.take room, 128 ≤ b.toNat := by
  induction room generalizing bs with
  | zero => simp [groups]
  | succ room ih =>
    cases bs with
    | nil => exact iff_of_false (by rintro ⟨⟩) fun h => absurd h.1 (Nat.not_succ_le_zero _)
    | cons b bs =>
      rw [List.take_succ_cons, List.forall_mem_cons, List.length_cons, Nat.succ_le_succ_iff]
      by_cases hb : b.toNat < 128
      · rw [groups_last room bs hb]
        exact iff_of_false (by rintro ⟨⟩) fun h => absurd hb (Nat.not_lt.mpr h.2.1)
      · rw [groups_more room bs (Nat.not_lt.mp hb), behind_eq_long, ih]
        exact and_congr_right' (and_iff_right (Nat.not_lt.mp hb)).symm

/-- All bytes say that another follows, and there would be room for it. -/
theorem groups_eq_short {room : Nat} {bs : Bytes} :
    groups room bs = .short ↔ bs.length < room ∧ ∀ b ∈ bs, 128 ≤ b.toNat := by
  induction room generalizing bs with
  | zero => exact iff_of_false nofun fun h => absurd h.1 (Nat.not_lt_zero _)
  | succ room ih =>
    cases bs with
    | nil => exact iff_of_true rfl ⟨Nat.succ_pos room, nofun⟩
    | cons b bs =>
      rw [List.forall_mem_cons, List.length_cons, Nat.succ_lt_succ_iff]
      by_cases hb : b.toNat < 128
      · rw [groups_last room bs hb]
        exact iff_of_false nofun fun h => absurd hb (Nat.not_lt.mpr h.2.1)
      · rw [groups_more room bs (Nat.not_lt.mp hb), behind_eq_short, ih]
        exact and_congr_right' (and_iff_right (Nat.not_lt.mp hb)).symm

theorem decode_eq_done {bs rest : Bytes} {v : Nat} :
    decode bs = .done v rest ↔ ∃ front, bs = front ++ rest ∧ Spells front v := by
  have hgroups : decode bs = .done v rest ↔
      ∃ w, groups 10 bs = .done w rest ∧ v = w % 2 ^ 64 := by
    unfold decode
    cases groups 10 bs with
    | done w rest' =>
      constructor
      · rintro ⟨⟩
        exact ⟨w, rfl, rfl⟩
      · rintro ⟨w', ⟨⟩, rfl⟩
        rfl
    | short | long => exact iff_of_false nofun fun ⟨_, h, _⟩ => nomatch h
  rw [hgroups]
  constructor
  · rintro ⟨w, hw, rfl⟩
    obtain ⟨front, rfl, hwhole, hlen, rfl⟩ := groups_eq_done.mp hw
    exact ⟨front, rfl, hwhole, hlen, rfl⟩
  · rintro ⟨front, rfl, hwhole, hlen, rfl⟩
    exact ⟨denoted front, groups_eq_done.mpr ⟨front, rfl, hwhole, hlen, rfl⟩, rfl⟩

theorem decode_eq_long {bs : Bytes} :
    decode bs = .long ↔ 10 ≤ bs.length ∧ ∀ b ∈ bs.take 10, 128 ≤ b.toNat := by
  rw [← groups_eq_long]
  unfold decode
  cases groups 10 bs <;> simp

theorem decode_eq_short {bs : Bytes} :
    decode bs = .short ↔ bs.length < 10 ∧ ∀ b ∈ bs, 128 ≤ b.toNat := by
  rw [← groups_eq_short]
  unfold decode
  cases groups 10 bs <;> simp

/-! ### Numbers of more than 64 bits -/

theorem denoted_lt (bs : Bytes) : denoted bs < 128 ^ bs.length := by
  have hdigits : ∀ d ∈ bs.map fun b => b.toNat % 128, d < 128 := fun d hd => by
    obtain ⟨b, -, rfl⟩ := List.mem_map.mp hd
    exact Nat.mod_lt _ (by decide)
  have hlt := Nat.ofDigits_lt_base_pow_length (by decide) hdigits
  rwa [List.length_map] at hlt

theorem denoted_append (bs bs' : Bytes) :
    denoted (bs ++ bs') = denoted bs + 128 ^ bs.length * denoted bs' := by
  rw [denoted, List.map_append, Nat.ofDigits_append, List.length_map]
  rfl

theorem Whole.last_lt {bs : Bytes} {b : UInt8} (h : Whole (bs ++ [b])) : b.toNat < 128 := by
  induction bs with
  | nil =>
    cases h with
    | last hlast => exact hlast
    | more _ hrest => cases hrest
  | cons b' bs ih =>
    cases bs with
    | nil =>
      cases h with
      | more _ hrest => exact ih hrest
    | cons b'' bs =>
      cases h with
      | more _ hrest => exact ih hrest

/-- Of the tenth byte of a number only the lowest bit counts. -/
theorem denoted_lt_iff {bs : Bytes} (hwhole : Whole bs) (hlen : bs.length ≤ 10) :
    denoted bs < 2 ^ 64 ↔ ∀ b, bs[9]? = some b → b.toNat < 2 := by
  obtain hshort | hten := Nat.lt_or_eq_of_le hlen
  · refine iff_of_true ?_ fun b hb => ?_
    · calc
        denoted bs < 128 ^ bs.length := denoted_lt bs
        _ ≤ 128 ^ 9 := Nat.pow_le_pow_right (by decide) (Nat.le_of_lt_succ hshort)
        _ ≤ 2 ^ 64 := by decide
    · obtain ⟨hnine, -⟩ := List.getElem?_eq_some_iff.mp hb
      omega
  · obtain ⟨init, b, rfl⟩ := (List.eq_nil_or_concat bs).resolve_left fun hnil => by
      rw [hnil] at hten
      cases hten
    rw [List.concat_eq_append] at *
    have hinit : init.length = 9 := by
      rw [List.length_append, List.length_singleton] at hten
      exact Nat.succ.inj hten
    have hlow := denoted_lt init
    have hlast := hwhole.last_lt
    rw [denoted_append, denoted_single hlast, hinit]
    rw [hinit] at hlow
    have hget : (init ++ [b])[9]? = some b := by
      rw [← hinit]
      exact List.getElem?_concat_length
    rw [hget]
    constructor
    · rintro h b' ⟨⟩
      omega
    · intro h
      have hb := h b rfl
      omega

/-- The number is the one that the bytes stand for unless their tenth byte has more bits than its
lowest one. -/
theorem Spells.exact {bs : Bytes} {v : Nat} (h : Spells bs v) :
    v = denoted bs ↔ ∀ b, bs[9]? = some b → b.toNat < 2 := by
  rw [← denoted_lt_iff h.whole h.short, h.value]
  constructor
  · intro heq
    rw [← heq]
    exact Nat.mod_lt _ (by decide)
  · exact Nat.mod_eq_of_lt

end Varint

/-! ## Headers -/

namespace Headers

/-- The headers of a block, one after another, each with its tag. -/
inductive Fields : Bytes → List (UInt8 × Bytes) → Prop
  | nil : Fields [] []
  | cons {tag : UInt8} {length value block : Bytes} {fields : List (UInt8 × Bytes)}
      (hlength : Varint.Spells length value.length) (rest : Fields block fields) :
      Fields (tag :: (length ++ (value ++ block))) ((tag, value) :: fields)

/-- A number is read from the front of a value, and it fits into a word. -/
def Holds (value : Bytes) (n : Nat) : Prop :=
  n < 2 ^ 32 ∧ ∃ front rest, value = front ++ rest ∧ Varint.Spells front n

/-- What headers in the order of their block say of the numbers that were read from them. -/
structure Tell (fields : List (UInt8 × Bytes)) (h : Headers) : Prop where
  numbers : ∀ tag value, (tag, value) ∈ fields → tag = seqTag ∨ tag = totalTag →
    ∃ n, Holds value n
  seq : ∀ n, h.seq = some n → ∃ value, (seqTag, value) ∈ fields ∧ Holds value n
  total : ∀ n, h.total = some n → ∃ value, (totalTag, value) ∈ fields ∧ Holds value n

variable {h h' : Headers} {tag : UInt8} {value : Bytes} {fields : List (UInt8 × Bytes)}

theorem holds_of_number {n : Nat} (hn : number value = .ok n) : Holds value n := by
  unfold number at hn
  split at hn
  · cases hn
  · cases hn
  · rename_i v rest hd
    split_ifs at hn with hword
    cases hn
    obtain ⟨front, hfront, hspells⟩ := Varint.decode_eq_done.mp hd
    exact ⟨hword, front, rest, hfront, hspells⟩

theorem holds_of_map_number {k : Nat → Headers} (hn : (number value).map k = .ok h') :
    ∃ n, h' = k n ∧ Holds value n := by
  cases hnumber : number value with
  | error e => rw [hnumber] at hn; cases hn
  | ok n =>
    rw [hnumber] at hn
    exact ⟨n, (Except.ok.inj hn).symm, holds_of_number hnumber⟩

/-- What a header does to the numbers of those before it. -/
theorem put_numbers (hput : h.put tag value = .ok h') :
    (tag = seqTag ∧ ∃ n, Holds value n ∧ h'.seq = some n ∧ h'.total = h.total) ∨
      (tag = totalTag ∧ ∃ n, Holds value n ∧ h'.total = some n ∧ h'.seq = h.seq) ∨
      (¬ (tag = seqTag ∨ tag = totalTag) ∧ h'.seq = h.seq ∧ h'.total = h.total) := by
  have hother : ¬ (tag = seqTag ∨ tag = totalTag) → h'.seq = h.seq ∧ h'.total = h.total := by
    intro hne
    obtain ⟨hseq, htotal⟩ := not_or.mp hne
    unfold put at hput
    rw [if_neg hseq, if_neg htotal] at hput
    split_ifs at hput
    · split at hput
      · cases hput
        exact ⟨rfl, rfl⟩
      · cases hput
    · cases hput
      exact ⟨rfl, rfl⟩
    · split at hput
      · cases hput
        exact ⟨rfl, rfl⟩
      · cases hput
        exact ⟨rfl, rfl⟩
      · cases hput
    all_goals
      cases hput
      exact ⟨rfl, rfl⟩
  by_cases hseq : tag = seqTag
  · subst hseq
    obtain ⟨n, rfl, hn⟩ := holds_of_map_number hput
    exact .inl ⟨rfl, n, hn, rfl, rfl⟩
  by_cases htotal : tag = totalTag
  · subst htotal
    obtain ⟨n, rfl, hn⟩ := holds_of_map_number hput
    exact .inr (.inl ⟨rfl, n, hn, rfl, rfl⟩)
  · have hne := not_or.mpr ⟨hseq, htotal⟩
    exact .inr (.inr ⟨hne, hother hne⟩)

theorem Tell.put (htell : Tell fields h) (hput : h.put tag value = .ok h') :
    Tell (fields ++ [(tag, value)]) h' := by
  have hlast : (tag, value) ∈ fields ++ [(tag, value)] :=
    List.mem_append_right _ (List.mem_singleton_self _)
  have hnumbers : (tag = seqTag ∨ tag = totalTag → ∃ n, Holds value n) →
      ∀ tag' value', (tag', value') ∈ fields ++ [(tag, value)] →
        tag' = seqTag ∨ tag' = totalTag → ∃ n, Holds value' n := by
    intro hnew tag' value' hmem htag
    obtain hmem | hmem := List.mem_append.mp hmem
    · exact htell.numbers tag' value' hmem htag
    · obtain ⟨rfl, rfl⟩ := Prod.mk.inj (List.mem_singleton.mp hmem)
      exact hnew htag
  have hkeep : ∀ {tag' : UInt8} {n : Nat},
      (∃ value', (tag', value') ∈ fields ∧ Holds value' n) →
        ∃ value', (tag', value') ∈ fields ++ [(tag, value)] ∧ Holds value' n :=
    fun ⟨value', hmem, hn⟩ => ⟨value', List.mem_append_left _ hmem, hn⟩
  obtain ⟨rfl, n, hn, hseq, htotal⟩ | ⟨rfl, n, hn, htotal, hseq⟩ | ⟨hne, hseq, htotal⟩ :=
    put_numbers hput
  · refine ⟨hnumbers fun _ => ⟨n, hn⟩, fun m hm => ?_, fun m hm => ?_⟩
    · obtain rfl := Option.some.inj (hseq.symm.trans hm)
      exact ⟨value, hlast, hn⟩
    · exact hkeep (htell.total m (htotal ▸ hm))
  · refine ⟨hnumbers fun _ => ⟨n, hn⟩, fun m hm => ?_, fun m hm => ?_⟩
    · exact hkeep (htell.seq m (hseq ▸ hm))
    · obtain rfl := Option.some.inj (htotal.symm.trans hm)
      exact ⟨value, hlast, hn⟩
  · refine ⟨hnumbers fun htag => absurd htag hne, fun m hm => ?_, fun m hm => ?_⟩
    · exact hkeep (htell.seq m (hseq ▸ hm))
    · exact hkeep (htell.total m (htotal ▸ hm))

theorem decodeFrom_fields : ∀ {fuel : Nat} {h h' : Headers} {block : Bytes}
    {seen : List (UInt8 × Bytes)}, block.length ≤ fuel → Tell seen h →
    decodeFrom fuel h block = .ok h' →
    ∃ fields, Fields block fields ∧ Tell (seen ++ fields) h'
  | fuel, h, h', [], seen, _, htell, hd => by
    have hsame : h = h' := by cases fuel <;> exact Except.ok.inj hd
    exact ⟨[], .nil, by rwa [List.append_nil, ← hsame]⟩
  | 0, _, _, _ :: _, _, hfuel, _, _ => absurd hfuel (Nat.not_succ_le_zero _)
  | fuel + 1, h, h', tag :: bs, seen, hfuel, htell, hd => by
    rw [decodeFrom] at hd
    split at hd
    · cases hd
    · cases hd
    · rename_i n bs' hn
      split at hd
      · cases hd
      · rename_i value rest hsplit
        split at hd
        · cases hd
        · rename_i h1 hput
          obtain ⟨length, rfl, hlength⟩ := Varint.decode_eq_done.mp hn
          obtain ⟨hvalue, -⟩ := Bytes.length_of_splitAt? hsplit
          obtain ⟨rfl, -⟩ := Bytes.splitAt?_front hsplit
          have hrest : rest.length ≤ fuel := by
            rw [List.length_cons, List.length_append, List.length_append] at hfuel
            omega
          obtain ⟨fields, hfields, htells⟩ := decodeFrom_fields hrest (htell.put hput) hd
          rw [List.append_assoc] at htells
          exact ⟨(tag, value) :: fields, .cons (hvalue.symm ▸ hlength) hfields, htells⟩

theorem tell_empty : Tell [] {} :=
  ⟨fun _ _ hmem => absurd hmem List.not_mem_nil, nofun, nofun⟩

theorem decode_fields {block : Bytes} (hd : decode block = .ok h') :
    ∃ fields, Fields block fields ∧ Tell fields h' :=
  decodeFrom_fields (Nat.le_refl _) tell_empty hd

end Headers

/-! ## Frames -/

namespace Frame

/-- The parts of a frame before its body, but for its type. -/
structure Layout where
  rid : Bytes
  ack : Bytes
  /-- The length of the headers. -/
  length : Bytes
  headers : Bytes
  /-- The length of the body. -/
  size : Bytes
  fields : List (UInt8 × Bytes)

namespace Layout

def bytes (l : Layout) (f : Frame) : Bytes :=
  f.type.code :: (l.rid ++ (l.ack ++ (l.length ++ (l.headers ++ (l.size ++ f.body)))))

structure Tells (l : Layout) (f : Frame) : Prop where
  rid : Varint.Spells l.rid f.rid ∧ f.rid < 2 ^ 32
  ack : Varint.Spells l.ack f.ack ∧ f.ack < 2 ^ 32
  length : Varint.Spells l.length l.headers.length
  size : l.size.length = 4 ∧ Bytes.toNat l.size = f.body.length
  headers : Headers.Fields l.headers l.fields
  numbers : Headers.Tell l.fields f.headers

end Layout

variable {maxBody : Nat} {f : Frame} {bs rest : Bytes}

theorem number?_spells {n : Nat} (h : number? bs = .ok (some (n, rest))) :
    ∃ front, bs = front ++ rest ∧ Varint.Spells front n := by
  unfold number? at h
  split at h
  · rename_i hd
    cases h
    exact Varint.decode_eq_done.mp hd
  · cases h
  · cases h

theorem cutBody_layout {code : UInt8} {rid ack : Nat} {headers : Bytes} {p : Parts}
    (h : cutBody maxBody code rid ack headers bs = .ok (some (p, rest))) :
    ∃ size body, p = ⟨code, rid, ack, headers, body⟩ ∧ bs = size ++ (body ++ rest) ∧
      size.length = 4 ∧ Bytes.toNat size = body.length := by
  unfold cutBody at h
  split at h
  · cases h
  · rename_i size bs' hsize
    dsimp only at h
    split_ifs at h
    split at h
    · cases h
    · rename_i body rest' hbody
      cases h
      obtain ⟨hlen, -⟩ := Bytes.length_of_splitAt? hsize
      obtain ⟨hlen', -⟩ := Bytes.length_of_splitAt? hbody
      obtain ⟨rfl, -⟩ := Bytes.splitAt?_front hsize
      obtain ⟨rfl, -⟩ := Bytes.splitAt?_front hbody
      exact ⟨size, body, rfl, rfl, hlen, hlen'.symm⟩

theorem cut_layout {p : Parts} (h : cut maxBody bs = .ok (some (p, rest))) :
    ∃ rid ack length size : Bytes,
      bs = p.code :: (rid ++ (ack ++ (length ++ (p.headers ++ (size ++ (p.body ++ rest)))))) ∧
      Varint.Spells rid p.rid ∧ Varint.Spells ack p.ack ∧
      Varint.Spells length p.headers.length ∧ size.length = 4 ∧
      Bytes.toNat size = p.body.length := by
  cases bs with
  | nil => cases h
  | cons code bs =>
    rw [cut] at h
    split at h
    · cases h
    · cases h
    · rename_i n1 bs1 h1
      split at h
      · cases h
      · cases h
      · rename_i n2 bs2 h2
        split at h
        · cases h
        · cases h
        · rename_i n3 bs3 h3
          split_ifs at h
          split at h
          · cases h
          · rename_i headers bs4 h4
            obtain ⟨rid, rfl, hrid⟩ := number?_spells h1
            obtain ⟨ack, rfl, hack⟩ := number?_spells h2
            obtain ⟨length, rfl, hlength⟩ := number?_spells h3
            obtain ⟨hlen, -⟩ := Bytes.length_of_splitAt? h4
            obtain ⟨rfl, -⟩ := Bytes.splitAt?_front h4
            obtain ⟨size, body, rfl, rfl, hsize⟩ := cutBody_layout h
            exact ⟨rid, ack, length, size, rfl, hrid, hack, hlen.symm ▸ hlength, hsize⟩

theorem decode_layout (h : decode maxBody bs = .ok (some (f, rest))) :
    ∃ l : Layout, bs = l.bytes f ++ rest ∧ l.Tells f := by
  unfold decode at h
  split at h
  · cases h
  · cases h
  · rename_i p rest' hcut
    obtain ⟨rid, ack, length, size, rfl, hrid, hack, hlength, hsize⟩ := cut_layout hcut
    split at h
    · cases h
    · rename_i g hparts
      cases h
      unfold ofParts at hparts
      split_ifs at hparts with hridword hackword
      split at hparts
      · cases hparts
      · rename_i headers hdecode
        cases hparts
        obtain ⟨fields, hfields, htells⟩ := Headers.decode_fields hdecode
        refine ⟨⟨rid, ack, length, p.headers, size, fields⟩, ?_,
          ⟨hrid, Nat.not_le.mp hridword⟩, ⟨hack, Nat.not_le.mp hackword⟩, hlength, hsize, hfields,
          htells⟩
        simp only [Layout.bytes, FrameType.code_ofCode, List.cons_append, List.append_assoc]

end Frame

/-! ## What is read -/

/-- A number is read from every byte string that begins with one of at most ten bytes, and it is
that number without the bits beyond the sixty-fourth. Ten bytes that all say that another follows
are an error, and fewer are too few. The numbers of a frame are read in this way, and those that do
not fit into words are refused. -/
theorem Varint.reads_low_bits (bs : Bytes) :
    (∀ v rest, decode bs = .done v rest ↔ ∃ front, bs = front ++ rest ∧ Spells front v) ∧
    (∀ front v, Spells front v → (v = denoted front ↔ ∀ b, front[9]? = some b → b.toNat < 2)) ∧
    (decode bs = .long ↔ 10 ≤ bs.length ∧ ∀ b ∈ bs.take 10, 128 ≤ b.toNat) ∧
    (decode bs = .short ↔ bs.length < 10 ∧ ∀ b ∈ bs, 128 ≤ b.toNat) ∧
    ∀ maxBody f rest, Frame.decode maxBody bs = .ok (some (f, rest)) →
      ∃ l : Frame.Layout, bs = l.bytes f ++ rest ∧ l.Tells f :=
  ⟨fun _ _ => decode_eq_done, fun _ _ h => h.exact, decode_eq_long, decode_eq_short,
    fun _ _ _ h => Frame.decode_layout h⟩

/-- Two bytes are read as five, nine that do not end are too few and ten are an error, and the
number of a response is five in two bytes. -/
theorem Varint.reads_padded_five :
    decode [0x85, 0x00, 0x07] = .done 5 [0x07] ∧ decode (List.replicate 9 0x80) = .short ∧
      decode (List.replicate 10 0x80) = .long ∧
      ∃ l : Frame.Layout,
        [0x80, 0x85, 0x00, 0x00, 0x00, 0, 0, 0, 0] = l.bytes { type := .response, rid := 5 } ++ [] ∧
          l.Tells { type := .response, rid := 5 } := by
  obtain ⟨hdone, -⟩ := reads_low_bits [0x85, 0x00, 0x07]
  obtain ⟨-, -, -, hshort, -⟩ := reads_low_bits (List.replicate 9 0x80)
  obtain ⟨-, -, hlong, -⟩ := reads_low_bits (List.replicate 10 0x80)
  obtain ⟨-, -, -, -, hframe⟩ := reads_low_bits [0x80, 0x85, 0x00, 0x00, 0x00, 0, 0, 0, 0]
  have hfive : Spells [0x85, 0x00] 5 :=
    ⟨.more (by decide) (.last (by decide)), by decide, by decide⟩
  have hmore : ∀ n, ∀ b ∈ List.replicate n (0x80 : UInt8), 128 ≤ b.toNat := fun n b hb => by
    rw [List.eq_of_mem_replicate hb]
    decide
  exact ⟨(hdone 5 [0x07]).mpr ⟨[0x85, 0x00], rfl, hfive⟩, hshort.mpr ⟨by decide, hmore 9⟩,
    hlong.mpr ⟨by decide, fun b hb => hmore 10 b (List.mem_of_mem_take hb)⟩,
    hframe 1024 _ [] (by decide +kernel)⟩

/-- Ten bytes that stand for a number of 65 bits are taken for a small one, also as the number of a
response. -/
theorem Varint.high_bits_lost :
    ∃ front : Bytes, Whole front ∧ front.length = 10 ∧ denoted front = 2 ^ 64 + 5 ∧
      decode front = .done 5 [] ∧
      Frame.decode 1024 (0x80 :: (front ++ [0, 0, 0, 0, 0, 0])) =
        .ok (some ({ type := .response, rid := 5 }, [])) := by
  have hmore : Whole [0x80, 0x80, 0x80, 0x80, 0x80, 0x80, 0x80, 0x80, 0x02] := by
    repeat apply Whole.more (by decide)
    exact .last (by decide)
  exact ⟨0x85 :: [0x80, 0x80, 0x80, 0x80, 0x80, 0x80, 0x80, 0x80, 0x02],
    .more (by decide) hmore, rfl, by decide, by decide, by decide +kernel⟩

end PeerLink
