import PeerLink.Frame.Layout
import Mathlib.Tactic.Common

/-! # Frames read back

* `Frame.InWords`: the numbers of a frame fit into the words of its layout.
* `Frame.Fits`: a reader with a given limit takes the frame.
* `Frame.decode_append`: what has been read in front of a byte string stays read when more bytes
  come; only "not yet" may change.
* `Frame.decode_of_fits`: a reader that has some of the bytes of a frame and of what follows it
  either has the whole frame and reads it, or lacks bytes of it and says so.
-/

namespace PeerLink
set_option autoImplicit false

/-! ## Bytes that come later -/

/-- What was read, with more bytes behind it. -/
def Frame.more {α : Type} (x : Bytes) :
    Except FrameError (Option (α × Bytes)) → Except FrameError (Option (α × Bytes))
  | .ok (some (a, r)) => .ok (some (a, r ++ x))
  | r => r

theorem Bytes.splitAt?_append_right {n : Nat} {bs a b : Bytes} (x : Bytes)
    (h : splitAt? n bs = some (a, b)) : splitAt? n (bs ++ x) = some (a, b ++ x) := by
  unfold splitAt? at h ⊢
  split at h
  · rename_i hn
    have hn' : n ≤ (bs ++ x).length := by rw [List.length_append]; omega
    obtain ⟨rfl, rfl⟩ := Prod.mk.inj (Option.some.inj h)
    rw [if_pos hn', List.take_append_of_le_length hn, List.drop_append_of_le_length hn]
  · cases h

namespace Varint

theorem groups_append (x : Bytes) : ∀ (room : Nat) (bs : Bytes),
    (∀ v r, groups room bs = .done v r → groups room (bs ++ x) = .done v (r ++ x)) ∧
      (groups room bs = .long → groups room (bs ++ x) = .long)
  | 0, _ => ⟨by simp [groups], fun _ => rfl⟩
  | _ + 1, [] => ⟨by simp [groups], by simp [groups]⟩
  | room + 1, b :: bs => by
    obtain ⟨ihd, ihl⟩ := groups_append x room bs
    by_cases hb : b.toNat < 128
    · simp [groups, hb]
    · cases h : groups room bs with
      | done v r => simp [groups, hb, h, ihd v r h]
      | short => simp [groups, hb, h]
      | long => simp [groups, hb, h, ihl h]

theorem decode_append (bs x : Bytes) :
    (∀ v r, decode bs = .done v r → decode (bs ++ x) = .done v (r ++ x)) ∧
      (decode bs = .long → decode (bs ++ x) = .long) := by
  obtain ⟨hd, hl⟩ := groups_append x 10 bs
  unfold decode
  cases h : groups 10 bs with
  | done v r => simp [hd v r h]
  | short => simp
  | long => simp [hl h]

end Varint

namespace Frame

theorem number?_append {bs : Bytes} (x : Bytes) (h : number? bs ≠ .ok none) :
    number? (bs ++ x) = more x (number? bs) := by
  obtain ⟨hd, hl⟩ := Varint.decode_append bs x
  unfold number? at h ⊢
  cases hv : Varint.decode bs with
  | done v r => rw [hd v r hv]; rfl
  | short => simp [hv] at h
  | long => rw [hl hv]; rfl

theorem cutBody_append {m : Nat} {code : UInt8} {rid ack : Nat} {headers bs : Bytes} (x : Bytes)
    (h : cutBody m code rid ack headers bs ≠ .ok none) :
    cutBody m code rid ack headers (bs ++ x) = more x (cutBody m code rid ack headers bs) := by
  unfold cutBody at h ⊢
  cases h4 : Bytes.splitAt? 4 bs with
  | none => simp [h4] at h
  | some p =>
    obtain ⟨len, bs'⟩ := p
    rw [Bytes.splitAt?_append_right x h4]
    simp only [h4] at h ⊢
    by_cases hm : m < Bytes.toNat len
    · simp [hm, more]
    · simp only [hm, if_false] at h ⊢
      cases hb : Bytes.splitAt? (Bytes.toNat len) bs' with
      | none => simp [hb] at h
      | some q => rw [Bytes.splitAt?_append_right x hb]; rfl

theorem cut_append {m : Nat} {bs : Bytes} (x : Bytes) (h : cut m bs ≠ .ok none) :
    cut m (bs ++ x) = more x (cut m bs) := by
  cases bs with
  | nil => simp [cut] at h
  | cons code bs =>
    simp only [cut, List.cons_append] at h ⊢
    cases h1 : number? bs with
    | error e => rw [number?_append x (by simp [h1]), h1]; rfl
    | ok o =>
      cases o with
      | none => simp [h1] at h
      | some p =>
        obtain ⟨rid, bs1⟩ := p
        rw [number?_append x (by simp [h1]), h1]
        simp only [more, h1] at h ⊢
        cases h2 : number? bs1 with
        | error e => rw [number?_append x (by simp [h2]), h2]; rfl
        | ok o =>
          cases o with
          | none => simp [h2] at h
          | some p =>
            obtain ⟨ack, bs2⟩ := p
            rw [number?_append x (by simp [h2]), h2]
            simp only [more, h2] at h ⊢
            cases h3 : number? bs2 with
            | error e => rw [number?_append x (by simp [h3]), h3]; rfl
            | ok o =>
              cases o with
              | none => simp [h3] at h
              | some p =>
                obtain ⟨len, bs3⟩ := p
                rw [number?_append x (by simp [h3]), h3]
                simp only [more, h3] at h ⊢
                by_cases hl : maxHeaders < len
                · simp [hl]
                · simp only [hl, if_false] at h ⊢
                  cases hs : Bytes.splitAt? len bs3 with
                  | none => simp [hs] at h
                  | some q =>
                    rw [Bytes.splitAt?_append_right x hs]
                    simp only [hs] at h ⊢
                    exact cutBody_append x h

/-- A frame or an error that was found in front of a byte string is found there whatever follows. -/
theorem decode_append {m : Nat} (bs x : Bytes) (h : decode m bs ≠ .ok none) :
    decode m (bs ++ x) = more x (decode m bs) := by
  have hc : cut m bs ≠ .ok none := by
    intro hc
    simp [decode, hc] at h
  unfold decode
  rw [cut_append x hc]
  cases hcut : cut m bs with
  | error e => rfl
  | ok o =>
    cases o with
    | none => exact absurd hcut hc
    | some p =>
      simp only [more]
      cases ofParts p.1 <;> rfl

end Frame

/-! ## Headers -/

namespace Headers

/-- Whatever the fuel, a block of headers adds to `h` what makes it `h'`. -/
def Reads (h : Headers) (block : Bytes) (h' : Headers) : Prop :=
  ∀ fuel, block.length ≤ fuel → decodeFrom fuel h block = .ok h'

theorem Reads.nil (h : Headers) : Reads h [] h := by
  intro fuel _
  cases fuel <;> rfl

theorem Reads.field {h h1 h2 : Headers} (tag : UInt8) (value : Bytes) {block : Bytes}
    (hv : value.length < 2 ^ 64) (hput : h.put tag value = .ok h1) (rest : Reads h1 block h2) :
    Reads h (field tag value ++ block) h2 := by
  intro fuel hfuel
  cases fuel with
  | zero => simp [Headers.field] at hfuel
  | succ fuel =>
    have hlen : block.length ≤ fuel := by
      simp only [Headers.field, List.cons_append, List.length_cons, List.length_append] at hfuel
      omega
    simp only [Headers.field, List.cons_append, List.append_assoc, decodeFrom,
      Varint.decode_encode (value ++ block) hv, Bytes.splitAt?_append, hput]
    exact rest fuel hlen

theorem Reads.optionalField {α : Type} {h h2 : Headers} (h1 : Headers) {tag : UInt8}
    {a : Option α} {write : α → Bytes} {block : Bytes}
    (hv : (optionalField tag a write).length < 2 ^ 64)
    (hnone : a = none → h1 = h) (hsome : ∀ x, a = some x → h.put tag (write x) = .ok h1)
    (rest : Reads h1 block h2) : Reads h (optionalField tag a write ++ block) h2 := by
  cases a with
  | none =>
    rw [← hnone rfl]
    exact rest
  | some x =>
    refine Reads.field tag (write x) ?_ (hsome x rfl) rest
    simp only [Headers.optionalField, Headers.field, List.length_cons, List.length_append] at hv
    omega

theorem number_encode {n : Nat} (h : n < 2 ^ 32) : number (Varint.encode n) = .ok n := by
  have hd := Varint.decode_encode (n := n) [] (by omega)
  rw [List.append_nil] at hd
  simp only [number, hd, h, if_true]

/-- The numbers in the headers fit into words, and the block has a length. -/
structure InWords (h : Headers) : Prop where
  seq : ∀ n, h.seq = some n → n < 2 ^ 32
  total : ∀ n, h.total = some n → n < 2 ^ 32
  length : h.encode.length < 2 ^ 64

theorem reads_encode {h : Headers} (hw : h.InWords) : Reads {} h.encode h := by
  obtain ⟨path, qos, status, permit, seq, total, continuation⟩ := h
  obtain ⟨hseq, htotal, hlen⟩ := hw
  simp only [encode, List.length_append] at hlen
  simp only [encode, List.append_assoc]
  refine Reads.optionalField { path } (by omega) (by rintro rfl; rfl) ?_ ?_
  · rintro p rfl
    simp [put, Bytes.toString?_ofString]
  refine Reads.optionalField { path, qos } (by omega) (by rintro rfl; rfl) ?_ ?_
  · rintro q rfl
    simp [put, pathTag, qosTag]
  refine Reads.optionalField { path, qos, status } (by omega) (by rintro rfl; rfl) ?_ ?_
  · rintro s rfl
    cases s <;> simp [put, pathTag, qosTag, statusTag, statusByte]
  refine Reads.optionalField { path, qos, status, permit } (by omega)
    (by rintro rfl; rfl) ?_ ?_
  · rintro p rfl
    have hp : (UInt8.ofNat p.code).toNat = p.code := by cases p <;> rfl
    simp [put, pathTag, qosTag, statusTag, permitTag, hp, Permission.ofCode?_code]
  refine Reads.optionalField { path, qos, status, permit, seq } (by omega)
    (by rintro rfl; rfl) ?_ ?_
  · rintro n rfl
    simp [put, pathTag, qosTag, statusTag, permitTag, seqTag, number_encode (hseq n rfl),
      Except.map]
  refine Reads.optionalField { path, qos, status, permit, seq, total } (by omega)
    (by rintro rfl; rfl) ?_ ?_
  · rintro n rfl
    simp [put, pathTag, qosTag, statusTag, permitTag, seqTag, totalTag,
      number_encode (htotal n rfl), Except.map]
  cases continuation with
  | false => exact Reads.nil _
  | true =>
    have h := Reads.field (h := { path, qos, status, permit, seq, total }) continuationTag []
      (by decide) rfl (Reads.nil _)
    rw [List.append_nil] at h
    exact h

theorem decode_encode {h : Headers} (hw : h.InWords) : decode h.encode = .ok h :=
  reads_encode hw _ (Nat.le_refl _)

end Headers

/-! ## Frames -/

namespace Frame

/-- The numbers of a frame fit into the words of the layout, and its type is the one that its code
stands for. -/
structure InWords (f : Frame) : Prop where
  type : FrameType.ofCode f.type.code = f.type
  rid : f.rid < 2 ^ 32
  ack : f.ack < 2 ^ 32
  headers : f.headers.InWords
  body : f.body.length < 2 ^ 32

/-- A reader takes the frame if neither its headers nor its body is too long. -/
structure Fits (maxBody : Nat) (f : Frame) : Prop where
  headers : f.headers.encode.length ≤ maxHeaders
  body : f.body.length ≤ maxBody

theorem number?_encode {n : Nat} (rest : Bytes) (h : n < 2 ^ 64) :
    number? (Varint.encode n ++ rest) = .ok (some (n, rest)) := by
  simp [number?, Varint.decode_encode rest h]

theorem ofParts_eq {f : Frame} (hw : f.InWords) :
    ofParts ⟨f.type.code, f.rid, f.ack, f.headers.encode, f.body⟩ = .ok f := by
  have hr : ¬ 2 ^ 32 ≤ f.rid := Nat.not_le.mpr hw.rid
  have ha : ¬ 2 ^ 32 ≤ f.ack := Nat.not_le.mpr hw.ack
  simp only [ofParts, hr, ha, if_false, Headers.decode_encode hw.headers, hw.type]

theorem cut_encode {m : Nat} {f : Frame} (hw : f.InWords) (rest : Bytes) :
    cut m (f.encode ++ rest) =
      if maxHeaders < f.headers.encode.length then
        .error (.tooLarge f.headers.encode.length maxHeaders)
      else
        cutBody m f.type.code f.rid f.ack f.headers.encode
          (Bytes.ofNat32 f.body.length ++ (f.body ++ rest)) := by
  have hr : f.rid < 2 ^ 64 := Nat.lt_trans hw.rid (by decide)
  have ha : f.ack < 2 ^ 64 := Nat.lt_trans hw.ack (by decide)
  simp only [encode, List.cons_append, List.append_assoc, cut, number?_encode _ hr,
    number?_encode _ ha, number?_encode _ hw.headers.length, Bytes.splitAt?_append]

theorem decode_encode_append {m : Nat} {f : Frame} (hw : f.InWords) (hf : f.Fits m)
    (rest : Bytes) : decode m (f.encode ++ rest) = .ok (some (f, rest)) := by
  have hh : ¬ maxHeaders < f.headers.encode.length := Nat.not_lt.mpr hf.headers
  have hb : ¬ m < f.body.length := Nat.not_lt.mpr hf.body
  have h4 := Bytes.splitAt?_append (Bytes.ofNat32 f.body.length) (f.body ++ rest)
  rw [Bytes.length_ofNat32] at h4
  simp only [decode, cut_encode hw, hh, if_false, cutBody, h4, Bytes.toNat_ofNat32 hw.body, hb,
    Bytes.splitAt?_append, ofParts_eq hw]

/-- A frame that is too long is refused as such. -/
theorem decode_encode_append_of_not_fits {m : Nat} {f : Frame} (hw : f.InWords) (hf : ¬ f.Fits m)
    (rest : Bytes) : ∃ e, decode m (f.encode ++ rest) = .error e := by
  by_cases hh : maxHeaders < f.headers.encode.length
  · refine ⟨.tooLarge f.headers.encode.length maxHeaders, ?_⟩
    simp only [decode, cut_encode hw, hh, if_true]
  · have hb : m < f.body.length := by
      by_contra hb
      exact hf ⟨Nat.not_lt.mp hh, Nat.not_lt.mp hb⟩
    have h4 := Bytes.splitAt?_append (Bytes.ofNat32 f.body.length) (f.body ++ rest)
    rw [Bytes.length_ofNat32] at h4
    refine ⟨.tooLarge f.body.length m, ?_⟩
    simp only [decode, cut_encode hw, hh, if_false, cutBody, h4, Bytes.toNat_ofNat32 hw.body, hb,
      if_true]

/-- A reader that holds some of the bytes of a frame and of what follows it reads nothing else in
front of them. -/
theorem decode_prefix {m : Nat} {f g : Frame} {p q x rest : Bytes} (hw : f.InWords)
    (hp : p ++ x = f.encode ++ rest) (hd : decode m p = .ok (some (g, q))) :
    g = f ∧ p = f.encode ++ q ∧ f.Fits m := by
  have hmore := decode_append (m := m) p x (by simp [hd])
  rw [hp, hd] at hmore
  by_cases hf : f.Fits m
  · rw [decode_encode_append hw hf] at hmore
    obtain ⟨rfl, hq⟩ := Prod.mk.inj (Option.some.inj (Except.ok.inj hmore))
    refine ⟨rfl, ?_, hf⟩
    rw [hq, ← List.append_assoc] at hp
    exact List.append_cancel_right hp
  · obtain ⟨e, he⟩ := decode_encode_append_of_not_fits hw hf rest
    rw [he] at hmore
    exact absurd hmore (by simp [more])

theorem decode_of_fits {m : Nat} {f : Frame} {p x rest : Bytes} (hw : f.InWords) (hf : f.Fits m)
    (hp : p ++ x = f.encode ++ rest) :
    (∃ q, p = f.encode ++ q ∧ decode m p = .ok (some (f, q))) ∨
      (p.length < f.encode.length ∧ decode m p = .ok none) := by
  by_cases hlen : f.encode.length ≤ p.length
  · left
    have htake : p.take f.encode.length = f.encode := by
      have h := congrArg (List.take f.encode.length) hp
      rwa [List.take_append_of_le_length hlen, List.take_left] at h
    refine ⟨p.drop f.encode.length, ?_, ?_⟩
    · conv_lhs => rw [← List.take_append_drop f.encode.length p, htake]
    · conv_lhs => rw [← List.take_append_drop f.encode.length p, htake]
      exact decode_encode_append hw hf _
  · right
    refine ⟨Nat.not_le.mp hlen, ?_⟩
    cases hd : decode m p with
    | error e =>
      have hmore := decode_append (m := m) p x (by simp [hd])
      rw [hp, hd, decode_encode_append hw hf] at hmore
      exact absurd hmore (by simp [more])
    | ok o =>
      cases o with
      | none => rfl
      | some r =>
        obtain ⟨-, hq, -⟩ := decode_prefix hw hp hd
        rw [hq, List.length_append] at hlen
        omega

theorem encode_ne_nil (f : Frame) : f.encode ≠ [] := by simp [encode]

/-! ## Errors -/

theorem number?_fatal {bs : Bytes} {e : FrameError} (h : number? bs = .error e) :
    e.isFatal = true := by
  unfold number? at h
  split at h
  · cases h
  · cases h
  · cases h
    rfl

end Frame

namespace Headers

theorem number_fatal {value : Bytes} {e : FrameError} (h : number value = .error e) :
    e.isFatal = true := by
  unfold number at h
  split at h
  · cases h
    rfl
  · cases h
    rfl
  · split at h
    · cases h
    · cases h
      rfl

theorem map_number_fatal {value : Bytes} {e : FrameError} {k : Nat → Headers}
    (h : (number value).map k = .error e) : e.isFatal = true := by
  cases hn : number value with
  | error e' =>
    rw [hn] at h
    cases h
    exact number_fatal hn
  | ok n =>
    rw [hn] at h
    cases h

theorem put_fatal {h : Headers} {tag : UInt8} {value : Bytes} {e : FrameError}
    (he : h.put tag value = .error e) : e.isFatal = true := by
  unfold put at he
  split_ifs at he
  · split at he
    · cases he
    · cases he
      rfl
  · split at he
    · cases he
    · cases he
    · cases he
      rfl
  · exact map_number_fatal he
  · exact map_number_fatal he

theorem decodeFrom_fatal {e : FrameError} : ∀ {fuel : Nat} {h : Headers} {block : Bytes},
    decodeFrom fuel h block = .error e → e.isFatal = true
  | fuel, h, [], hd => by cases fuel <;> simp [decodeFrom] at hd
  | 0, h, _ :: _, hd => by simp [decodeFrom] at hd
  | fuel + 1, h, tag :: bs, hd => by
    simp only [decodeFrom] at hd
    split at hd
    · cases hd; rfl
    · cases hd; rfl
    · split at hd
      · cases hd; rfl
      · split at hd
        · rename_i hput
          cases hd
          exact put_fatal hput
        · exact decodeFrom_fatal hd

end Headers

namespace Frame

theorem cutBody_fatal {m : Nat} {code : UInt8} {rid ack : Nat} {headers bs : Bytes}
    {e : FrameError} (h : cutBody m code rid ack headers bs = .error e) : e.isFatal = true := by
  unfold cutBody at h
  split at h
  · cases h
  · simp only at h
    split at h
    · cases h; rfl
    · split at h <;> cases h

theorem cut_fatal {m : Nat} {bs : Bytes} {e : FrameError} (h : cut m bs = .error e) :
    e.isFatal = true := by
  cases bs with
  | nil => simp [cut] at h
  | cons code bs =>
    simp only [cut] at h
    split at h
    · rename_i h1
      cases h
      exact number?_fatal h1
    · cases h
    · split at h
      · rename_i h2
        cases h
        exact number?_fatal h2
      · cases h
      · split at h
        · rename_i h3
          cases h
          exact number?_fatal h3
        · cases h
        · split at h
          · cases h; rfl
          · split at h
            · cases h
            · exact cutBody_fatal h

theorem ofParts_fatal {p : Parts} {e : FrameError} (h : ofParts p = .error e) :
    e.isFatal = true := by
  unfold ofParts at h
  split at h
  · cases h; rfl
  · split at h
    · cases h; rfl
    · split at h
      · rename_i hd
        cases h
        exact Headers.decodeFrom_fatal hd
      · cases h

/-- After bytes that are no frame nothing more can be read. -/
theorem decode_fatal {m : Nat} {bs : Bytes} {e : FrameError} (h : decode m bs = .error e) :
    e.isFatal = true := by
  unfold decode at h
  split at h
  · rename_i hc
    cases h
    exact cut_fatal hc
  · cases h
  · split at h
    · rename_i ho
      cases h
      exact ofParts_fatal ho
    · cases h

end Frame
end PeerLink
