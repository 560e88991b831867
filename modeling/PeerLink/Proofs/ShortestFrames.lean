import PeerLink.Proofs.FramePieces

/-! # The shortest form of a frame

A frame can be laid out in many ways: numbers may be longer than they need to be, headers may be
repeated, and those with an unknown tag say nothing.

* `Frame.WellFormed`: the frames that have a layout within the limits of a reader.
* `Frame.decode_spec`: a frame that was read is well-formed, and the layout in which it was found is
  not shorter than its own.
* `Frame.decode_inverts_encode`: a well-formed frame is read back from its layout and from no part
  of it, and whatever is read is well-formed and is read again from its own layout.
-/

namespace PeerLink
set_option autoImplicit false

/-! ## Numbers -/

namespace Varint

theorem length_encode_pos (n : Nat) : 0 < (encode n).length := by
  by_cases h : n < 128
  · rw [encode_of_lt h]
    exact Nat.one_pos
  · rw [encode_of_le (Nat.not_lt.mp h)]
    exact Nat.succ_pos _

theorem length_encode_mono {m n : Nat} (h : m ≤ n) : (encode m).length ≤ (encode n).length := by
  by_cases hm : m < 128
  · rw [encode_of_lt hm]
    exact length_encode_pos n
  · have hn : 128 ≤ n := Nat.le_trans (Nat.not_lt.mp hm) h
    rw [encode_of_le (Nat.not_lt.mp hm), encode_of_le hn, List.length_cons, List.length_cons]
    exact Nat.succ_le_succ (length_encode_mono (Nat.div_le_div_right h))
termination_by m
decreasing_by omega

theorem length_encode_groups : ∀ {room : Nat} {bs rest : Bytes} {v : Nat},
    groups room bs = .done v rest → (encode v).length + rest.length ≤ bs.length
  | 0, _, _, _, h => by cases h
  | _ + 1, [], _, _, h => by cases h
  | room + 1, b :: bs, rest, v, h => by
    rw [groups] at h
    by_cases hb : b.toNat < 128
    · rw [if_pos hb] at h
      cases h
      rw [encode_of_lt hb, List.length_singleton, List.length_cons]
      omega
    · rw [if_neg hb] at h
      cases hg : groups room bs with
      | short => rw [hg] at h; cases h
      | long => rw [hg] at h; cases h
      | done w rest' =>
        rw [hg] at h
        cases h
        have ih := length_encode_groups hg
        -- One byte more holds seven bits more, so the rest of the number is no longer than `w`.
        have hone : (encode (b.toNat % 128 + 128 * w)).length ≤ (encode w).length + 1 := by
          by_cases hsmall : b.toNat % 128 + 128 * w < 128
          · rw [encode_of_lt hsmall, List.length_singleton]
            omega
          · have hdiv : (b.toNat % 128 + 128 * w) / 128 = w := by omega
            rw [encode_of_le (Nat.not_lt.mp hsmall), hdiv]
            exact Nat.le_of_eq List.length_cons
        rw [List.length_cons]
        omega

/-- A number is never written in more bytes than it was read from, also when bits were dropped. -/
theorem length_encode_decode {bs rest : Bytes} {v : Nat} (h : decode bs = .done v rest) :
    (encode v).length + rest.length ≤ bs.length := by
  unfold decode at h
  split at h
  · rename_i w rest' hg
    cases h
    have hlen := length_encode_groups hg
    have hmod := length_encode_mono (Nat.mod_le w (2 ^ 64))
    omega
  · rename_i hne
    exact absurd h (hne _ _)

end Varint

/-! ## Text and words -/

namespace Bytes

theorem ofString_of_toString? {bs : Bytes} {s : String} (h : toString? bs = some s) :
    ofString s = bs := by
  unfold toString? String.fromUTF8? at h
  split_ifs at h with hvalid
  cases h
  rfl

theorem toNat_lt_of_length {bs : Bytes} (h : bs.length = 4) : toNat bs < 2 ^ 32 := by
  match bs, h with
  | [a, b, c, d], _ =>
    have ha := a.toNat_lt
    have hb := b.toNat_lt
    have hc := c.toNat_lt
    have hd := d.toNat_lt
    simp only [toNat, List.foldl]
    omega

theorem length_of_splitAt? {n : Nat} {bs a rest : Bytes} (h : splitAt? n bs = some (a, rest)) :
    a.length = n ∧ bs.length = n + rest.length := by
  unfold splitAt? at h
  split_ifs at h with hn
  cases h
  rw [List.length_take_of_le hn, List.length_drop]
  omega

end Bytes

/-! ## Headers -/

namespace Headers

variable {h h' : Headers} {tag : UInt8} {value : Bytes}

theorem length_field (tag : UInt8) (value : Bytes) :
    (field tag value).length = 1 + (Varint.encode value.length).length + value.length := by
  rw [field, List.cons_append, List.length_cons, List.length_append]
  omega

theorem length_field_mono {tag' : UInt8} {value' : Bytes} (h : value.length ≤ value'.length) :
    (field tag value).length ≤ (field tag' value').length := by
  rw [length_field, length_field]
  have := Varint.length_encode_mono h
  omega

theorem length_encode (h : Headers) : h.encode.length =
    (optionalField pathTag h.path Bytes.ofString).length +
    (optionalField qosTag h.qos fun q => [q]).length +
    (optionalField statusTag h.status fun s => [statusByte s]).length +
    (optionalField permitTag h.permit fun p => [UInt8.ofNat p.code]).length +
    (optionalField seqTag h.seq Varint.encode).length +
    (optionalField totalTag h.total Varint.encode).length +
    (if h.continuation then field continuationTag [] else []).length := by
  simp only [encode, List.length_append]

/-- What is written for a header that was read is no longer than what it was read from. -/
theorem length_optionalField_mono {α : Type} (tag tag' : UInt8) (value : Bytes) (a : Option α)
    (write : α → Bytes) (hlen : ∀ x, a = some x → (write x).length ≤ value.length) :
    (optionalField tag a write).length ≤ (field tag' value).length := by
  cases a with
  | none => exact Nat.zero_le _
  | some x => exact length_field_mono (hlen x rfl)

/-- The numbers in the headers fit into words. -/
structure Words (h : Headers) : Prop where
  seq : ∀ n, h.seq = some n → n < 2 ^ 32
  total : ∀ n, h.total = some n → n < 2 ^ 32

theorem words_empty : ({} : Headers).Words := ⟨nofun, nofun⟩

theorem number_spec {n : Nat} (h : number value = .ok n) :
    n < 2 ^ 32 ∧ (Varint.encode n).length ≤ value.length := by
  unfold number at h
  split at h
  · cases h
  · cases h
  · rename_i v rest hd
    split_ifs at h with hn
    cases h
    have hlen := Varint.length_encode_decode hd
    exact ⟨hn, by omega⟩

theorem of_map_number {k : Nat → Headers} (h : (number value).map k = .ok h') :
    ∃ n, h' = k n ∧ n < 2 ^ 32 ∧ (Varint.encode n).length ≤ value.length := by
  cases hn : number value with
  | error e => rw [hn] at h; cases h
  | ok n =>
    rw [hn] at h
    exact ⟨n, (Except.ok.inj h).symm, number_spec hn⟩

/-- A header takes the place of an earlier one with its tag; in any case the headers grow by no more
than what was read. -/
theorem put_spec (hw : h.Words) (hput : h.put tag value = .ok h') :
    h'.Words ∧ h'.encode.length ≤ h.encode.length + (field tag value).length := by
  have hhead : ∀ b, value.head? = some b → 1 ≤ value.length := fun b hb =>
    List.length_pos_iff.mpr fun hnil => by rw [hnil] at hb; cases hb
  rw [length_encode, length_encode]
  unfold put at hput
  split_ifs at hput
  · split at hput
    · rename_i path hpath
      cases hput
      have hlen := length_optionalField_mono pathTag tag value (some path) Bytes.ofString
        fun x hx =>
          Nat.le_of_eq (by rw [← Option.some.inj hx, Bytes.ofString_of_toString? hpath])
      exact ⟨⟨hw.seq, hw.total⟩, by dsimp only; omega⟩
    · cases hput
  · cases hput
    have hlen := length_optionalField_mono qosTag tag value value.head? (fun q => [q]) hhead
    exact ⟨⟨hw.seq, hw.total⟩, by dsimp only; omega⟩
  · have hlen : ∀ (s : StreamState) (b : UInt8), value.head? = some b →
        (optionalField statusTag (some s) fun s => [statusByte s]).length ≤
          (field tag value).length := fun s b hb =>
      length_optionalField_mono _ _ _ _ _ fun _ _ => hhead b hb
    split at hput
    · rename_i hb
      cases hput
      have := hlen .opened 0 hb
      exact ⟨⟨hw.seq, hw.total⟩, by dsimp only; omega⟩
    · rename_i hb
      cases hput
      have := hlen .closed 1 hb
      exact ⟨⟨hw.seq, hw.total⟩, by dsimp only; omega⟩
    · cases hput
  · cases hput
    have hlen := length_optionalField_mono permitTag tag value
      (value.head?.bind fun b => Permission.ofCode? b.toNat) (fun p => [UInt8.ofNat p.code])
      fun p hp => by
        obtain ⟨b, hb, -⟩ := Option.bind_eq_some_iff.mp hp
        exact hhead b hb
    exact ⟨⟨hw.seq, hw.total⟩, by dsimp only; omega⟩
  · obtain ⟨n, rfl, hword, hn⟩ := of_map_number hput
    have hlen := length_optionalField_mono seqTag tag value (some n) Varint.encode
      fun x hx => Option.some.inj hx ▸ hn
    exact ⟨⟨fun k hk => Option.some.inj hk ▸ hword, hw.total⟩, by dsimp only; omega⟩
  · obtain ⟨n, rfl, hword, hn⟩ := of_map_number hput
    have hlen := length_optionalField_mono totalTag tag value (some n) Varint.encode
      fun x hx => Option.some.inj hx ▸ hn
    exact ⟨⟨hw.seq, fun k hk => Option.some.inj hk ▸ hword⟩, by dsimp only; omega⟩
  · cases hput
    have hlen : (field continuationTag []).length ≤ (field tag value).length :=
      length_field_mono (Nat.zero_le _)
    exact ⟨⟨hw.seq, hw.total⟩, by rw [if_pos rfl]; dsimp only; omega⟩
  · cases hput
    exact ⟨hw, Nat.le_add_right _ _⟩

theorem decodeFrom_spec : ∀ {fuel : Nat} {h h' : Headers} {block : Bytes}, h.Words →
    decodeFrom fuel h block = .ok h' →
    h'.Words ∧ h'.encode.length ≤ h.encode.length + block.length
  | fuel, h, h', [], hw, hd => by
    have hsame : h = h' := by cases fuel <;> exact Except.ok.inj hd
    exact hsame ▸ ⟨hw, Nat.le_add_right _ _⟩
  | 0, h, h', _ :: _, hw, hd => Except.ok.inj hd ▸ ⟨hw, Nat.le_add_right _ _⟩
  | fuel + 1, h, h', tag :: bs, hw, hd => by
    rw [decodeFrom] at hd
    split at hd
    · cases hd
    · cases hd
    · rename_i n bs' hn
      split at hd
      · cases hd
      · rename_i value rest hsplit
        split at hd
        · cases hd
        · rename_i h1 hput
          obtain ⟨hw1, hlen1⟩ := put_spec hw hput
          obtain ⟨hw', hlen'⟩ := decodeFrom_spec hw1 hd
          have htaken := Varint.length_encode_decode hn
          obtain ⟨hvalue, hbs'⟩ := Bytes.length_of_splitAt? hsplit
          rw [length_field, hvalue] at hlen1
          refine ⟨hw', ?_⟩
          rw [List.length_cons]
          omega

theorem decode_spec {block : Bytes} (h : decode block = .ok h') :
    h'.Words ∧ h'.encode.length ≤ block.length := by
  obtain ⟨hw, hlen⟩ := decodeFrom_spec words_empty h
  exact ⟨hw, by rwa [show ({} : Headers).encode = [] from rfl, List.length_nil,
    Nat.zero_add] at hlen⟩

end Headers

/-! ## Frames -/

namespace Frame

variable {maxBody : Nat} {f : Frame} {bs rest : Bytes}

/-- A frame as it is built: its type is that of some byte, its numbers are words, and neither its
headers nor its body is too long for the reader. -/
structure WellFormed (maxBody : Nat) (f : Frame) : Prop where
  type : ∃ c, f.type = FrameType.ofCode c
  rid : f.rid < 2 ^ 32
  ack : f.ack < 2 ^ 32
  words : f.headers.Words
  fits : f.Fits maxBody

theorem WellFormed.inWords (h : f.WellFormed maxBody) (hbody : f.body.length < 2 ^ 32) :
    f.InWords where
  type := by
    obtain ⟨c, hc⟩ := h.type
    rw [hc, FrameType.code_ofCode]
  rid := h.rid
  ack := h.ack
  headers := ⟨h.words.seq, h.words.total, Nat.lt_of_le_of_lt h.fits.headers (by decide)⟩
  body := hbody

theorem length_encode (f : Frame) : f.encode.length =
    1 + (Varint.encode f.rid).length + (Varint.encode f.ack).length +
      (Varint.encode f.headers.encode.length).length + f.headers.encode.length + 4 +
      f.body.length := by
  simp only [encode, List.length_append, List.length_cons, Bytes.length_ofNat32]
  omega

theorem number?_spec {n : Nat} (h : number? bs = .ok (some (n, rest))) :
    (Varint.encode n).length + rest.length ≤ bs.length := by
  unfold number? at h
  split at h
  · rename_i hd
    cases h
    exact Varint.length_encode_decode hd
  · cases h
  · cases h

theorem cutBody_spec {code : UInt8} {rid ack : Nat} {headers : Bytes} {p : Parts}
    (h : cutBody maxBody code rid ack headers bs = .ok (some (p, rest))) :
    (∃ body, p = ⟨code, rid, ack, headers, body⟩) ∧ p.body.length ≤ maxBody ∧
      p.body.length < 2 ^ 32 ∧ 4 + p.body.length + rest.length = bs.length := by
  unfold cutBody at h
  split at h
  · cases h
  · rename_i len bs' h4
    dsimp only at h
    split_ifs at h with hmax
    split at h
    · cases h
    · rename_i body rest' hbody
      cases h
      obtain ⟨hlen4, hbs⟩ := Bytes.length_of_splitAt? h4
      obtain ⟨hlen, hbs'⟩ := Bytes.length_of_splitAt? hbody
      have hword := Bytes.toNat_lt_of_length hlen4
      exact ⟨⟨body, rfl⟩, by rw [hlen]; exact Nat.not_lt.mp hmax, by rw [hlen]; exact hword, by
        dsimp only; omega⟩

theorem cut_spec {p : Parts} (h : cut maxBody bs = .ok (some (p, rest))) :
    p.headers.length ≤ maxHeaders ∧ p.body.length ≤ maxBody ∧ p.body.length < 2 ^ 32 ∧
      1 + (Varint.encode p.rid).length + (Varint.encode p.ack).length +
        (Varint.encode p.headers.length).length + p.headers.length + 4 + p.body.length +
        rest.length ≤ bs.length := by
  cases bs with
  | nil => cases h
  | cons code bs =>
    rw [cut] at h
    split at h
    · cases h
    · cases h
    · rename_i rid bs1 h1
      split at h
      · cases h
      · cases h
      · rename_i ack bs2 h2
        split at h
        · cases h
        · cases h
        · rename_i len bs3 h3
          split_ifs at h with hmax
          split at h
          · cases h
          · rename_i headers bs4 h4
            obtain ⟨⟨body, rfl⟩, hbody, hword, hrest⟩ := cutBody_spec h
            obtain ⟨hheaders, hbs3⟩ := Bytes.length_of_splitAt? h4
            have hlen1 := number?_spec h1
            have hlen2 := number?_spec h2
            have hlen3 := number?_spec h3
            rw [← hheaders] at hlen3 hbs3 hmax
            refine ⟨Nat.not_lt.mp hmax, hbody, hword, ?_⟩
            rw [List.length_cons]
            dsimp only at hrest ⊢
            omega

/-- What is found is a well-formed frame, and its own layout is no longer than the bytes that it was
found in. -/
theorem decode_spec (h : decode maxBody bs = .ok (some (f, rest))) :
    f.WellFormed maxBody ∧ f.body.length < 2 ^ 32 ∧ f.encode.length + rest.length ≤ bs.length := by
  unfold decode at h
  split at h
  · cases h
  · cases h
  · rename_i p rest' hcut
    obtain ⟨hheaders, hbody, hword, hlen⟩ := cut_spec hcut
    split at h
    · cases h
    · rename_i g hparts
      cases h
      unfold ofParts at hparts
      split_ifs at hparts with hrid hack
      split at hparts
      · cases hparts
      · rename_i headers hdecode
        cases hparts
        obtain ⟨hwords, hblock⟩ := Headers.decode_spec hdecode
        have hmono := Varint.length_encode_mono hblock
        refine ⟨⟨⟨p.code, rfl⟩, Nat.not_le.mp hrid, Nat.not_le.mp hack, hwords,
          Nat.le_trans hblock hheaders, hbody⟩, hword, ?_⟩
        rw [length_encode]
        dsimp only
        omega

/-- Reading undoes writing, and what is read can be written in as many bytes or fewer. -/
theorem decode_inverts_encode (maxBody : Nat) :
    (maxBody < 2 ^ 32 → ∀ f : Frame, f.WellFormed maxBody →
      (∀ rest, decode maxBody (f.encode ++ rest) = .ok (some (f, rest))) ∧
      ∀ p, p <+: f.encode → p ≠ f.encode → decode maxBody p = .ok none) ∧
    ∀ bs f rest, decode maxBody bs = .ok (some (f, rest)) →
      ∃ taken, bs = taken ++ rest ∧ f.encode.length ≤ taken.length ∧
        decode maxBody f.encode = .ok (some (f, [])) := by
  constructor
  · intro hmax f hf
    have hwords := hf.inWords (Nat.lt_of_le_of_lt hf.fits.body hmax)
    refine ⟨decode_encode_append hwords hf.fits, ?_⟩
    rintro p ⟨x, hx⟩ hproper
    have hwhole : p ++ x = f.encode ++ [] := hx.trans (List.append_nil _).symm
    obtain ⟨q, hp, -⟩ | ⟨-, hnone⟩ := decode_of_fits hwords hf.fits hwhole
    · have hlen := congrArg List.length hx
      rw [hp, List.length_append, List.length_append] at hlen
      have hq : q = [] := List.eq_nil_of_length_eq_zero (by omega)
      exact absurd (by rw [hp, hq, List.append_nil]) hproper
    · exact hnone
  · intro bs f rest h
    obtain ⟨taken, hbs, -⟩ := decode_taken h
    obtain ⟨hf, hbody, hlen⟩ := decode_spec h
    have hagain := decode_encode_append (hf.inWords hbody) hf.fits []
    rw [List.append_nil] at hagain
    refine ⟨taken, hbs, ?_, hagain⟩
    rw [hbs, List.length_append] at hlen
    omega

/-- A request to be told of changes, with a path and a number. -/
def watching : Frame :=
  { type := .request .subscribe, rid := 300, ack := 17, body := [0x7b, 0x7d]
    headers := { path := some "/a", qos := some 2, seq := some 129 } }

/-- A response in a wasteful layout: its number takes two bytes, an unknown header stands in front
and the state of the stream is said twice. -/
def wasteful : Bytes :=
  [0x80, 0x81, 0x00, 0x00, 0x09, 0x7e, 0x01, 0xaa, 0x03, 0x01, 0x00, 0x03, 0x01, 0x01, 0, 0, 0, 0]

theorem watching_inverts :
    watching.WellFormed 16384 ∧
      decode 16384 (watching.encode ++ wasteful) = .ok (some (watching, wasteful)) ∧
      decode 16384 (watching.encode.take 9) = .ok none ∧
      ∃ f : Frame, decode 16384 wasteful = .ok (some (f, [])) ∧ f.encode.length < wasteful.length ∧
        decode 16384 f.encode = .ok (some (f, [])) := by
  have hwell : watching.WellFormed 16384 := by
    refine ⟨⟨5, by decide⟩, by decide, by decide, ⟨fun n hn => ?_, fun n hn => ?_⟩, ?_, ?_⟩
    · cases hn
      decide
    · cases hn
    · decide +kernel
    · decide
  obtain ⟨hwrite, hread⟩ := decode_inverts_encode 16384
  obtain ⟨hwhole, hpart⟩ := hwrite (by decide) watching hwell
  have hfound : decode 16384 wasteful = .ok (some
      ({ type := .response, rid := 1, headers := { status := some .closed } }, [])) := by
    decide +kernel
  obtain ⟨-, -, -, hagain⟩ := hread _ _ _ hfound
  exact ⟨hwell, hwhole wasteful, hpart _ (List.take_prefix _ _) (by decide +kernel), _, hfound,
    by decide +kernel, hagain⟩

end Frame
end PeerLink
