import PeerLink.Proofs.FrameLayout
import PeerLink.Proofs.LinkCounters
import PeerLink.Proofs.Pieces

/-! # Frames in pieces

* `Frame.decode_front`: a frame is found as soon as its bytes are there, and not before.
* `BinaryEnd.decoder_patient`: to a reader of frames it does not matter when bytes come.
* `BinaryEnd.cut_frames_agree`: what is read of a stream does not depend on how it is cut.
-/

namespace PeerLink
set_option autoImplicit false

/-! ## The bytes of a frame -/

namespace Varint

theorem groups_front : ∀ {room : Nat} {bs r : Bytes} {v : Nat}, groups room bs = .done v r →
    ∃ front, bs = front ++ r ∧ ∀ y, groups room (front ++ y) = .done v y
  | 0, _, _, _, h => by cases h
  | _ + 1, [], _, _, h => by cases h
  | room + 1, b :: bs, r, v, h => by
    rw [groups] at h
    by_cases hb : b.toNat < 128
    · rw [if_pos hb] at h
      cases h
      exact ⟨[b], rfl, fun y => by simp [groups, hb]⟩
    · rw [if_neg hb] at h
      cases hg : groups room bs with
      | done w r' =>
        rw [hg] at h
        cases h
        obtain ⟨front, rfl, hfront⟩ := groups_front hg
        exact ⟨b :: front, rfl, fun y => by simp [groups, hb, hfront y]⟩
      | short => rw [hg] at h; cases h
      | long => rw [hg] at h; cases h

end Varint

theorem Bytes.splitAt?_front {n : Nat} {bs a r : Bytes} (h : splitAt? n bs = some (a, r)) :
    bs = a ++ r ∧ ∀ y, splitAt? n (a ++ y) = some (a, y) := by
  unfold splitAt? at h
  split at h
  · rename_i hn
    obtain ⟨rfl, rfl⟩ := Prod.mk.inj (Option.some.inj h)
    have hlen : (bs.take n).length = n := List.length_take_of_le hn
    refine ⟨(List.take_append_drop n bs).symm, fun y => ?_⟩
    have hsplit := splitAt?_append (bs.take n) y
    rwa [hlen] at hsplit
  · cases h

namespace Frame

variable {m : Nat} {bs rest : Bytes}

/-- What is taken from the front is taken from there whatever follows. -/
def Front {α : Type} (read : Bytes → Except FrameError (Option (α × Bytes))) (front : Bytes)
    (a : α) : Prop :=
  ∀ y, read (front ++ y) = .ok (some (a, y))

theorem number?_front {n : Nat} (h : number? bs = .ok (some (n, rest))) :
    ∃ front, bs = front ++ rest ∧ Front number? front n := by
  unfold number? at h
  split at h
  · rename_i v r hd
    cases h
    unfold Varint.decode at hd
    split at hd
    · rename_i hg
      cases hd
      obtain ⟨front, rfl, hfront⟩ := Varint.groups_front hg
      exact ⟨front, rfl, fun y => by simp [number?, Varint.decode, hfront y]⟩
    · rename_i hne
      exact absurd hd (hne _ _)
  · cases h
  · cases h

theorem cutBody_front {code : UInt8} {rid ack : Nat} {headers : Bytes} {p : Parts}
    (h : cutBody m code rid ack headers bs = .ok (some (p, rest))) :
    ∃ front, bs = front ++ rest ∧ Front (cutBody m code rid ack headers) front p := by
  unfold cutBody at h
  split at h
  · cases h
  · rename_i len bs' h4
    dsimp only at h
    split_ifs at h with hm
    split at h
    · cases h
    · rename_i body rest' hb
      cases h
      obtain ⟨rfl, hlen⟩ := Bytes.splitAt?_front h4
      obtain ⟨rfl, hbody⟩ := Bytes.splitAt?_front hb
      refine ⟨len ++ body, by simp, fun y => ?_⟩
      rw [List.append_assoc]
      simp only [cutBody, hlen, if_neg hm, hbody]

theorem cut_front {p : Parts} (h : cut m bs = .ok (some (p, rest))) :
    ∃ front, bs = front ++ rest ∧ Front (cut m) front p := by
  cases bs with
  | nil => cases h
  | cons code bs =>
    rw [cut] at h
    split at h
    · cases h
    · cases h
    · rename_i rid bs1 h1
      split at h
      · cases h
      · cases h
      · rename_i ack bs2 h2
        split at h
        · cases h
        · cases h
        · rename_i len bs3 h3
          split_ifs at h with hl
          split at h
          · cases h
          · rename_i headers bs4 h4
            obtain ⟨f1, rfl, hf1⟩ := number?_front h1
            obtain ⟨f2, rfl, hf2⟩ := number?_front h2
            obtain ⟨f3, rfl, hf3⟩ := number?_front h3
            obtain ⟨rfl, hf4⟩ := Bytes.splitAt?_front h4
            obtain ⟨f5, rfl, hf5⟩ := cutBody_front h
            refine ⟨code :: (f1 ++ (f2 ++ (f3 ++ (headers ++ f5)))), by simp, fun y => ?_⟩
            simp only [List.cons_append, List.append_assoc, cut, hf1 _, hf2 _, hf3 _, hf4,
              if_neg hl]
            exact hf5 y

theorem decode_taken {f : Frame} (h : decode m bs = .ok (some (f, rest))) :
    ∃ front, bs = front ++ rest ∧ Front (decode m) front f := by
  unfold decode at h
  split at h
  · cases h
  · cases h
  · rename_i parts rest' hc
    split at h
    · cases h
    · rename_i f' hp
      cases h
      obtain ⟨front, rfl, hfront⟩ := cut_front hc
      exact ⟨front, rfl, fun y => by simp only [decode, hfront y, hp]⟩

/-- A frame that is found has bytes of its own in front. It is found wherever all of them are there,
and nothing is found as long as some of them are missing. -/
theorem decode_front {f : Frame} (h : decode m bs = .ok (some (f, rest))) :
    ∃ front, bs = front ++ rest ∧ ∀ p x y : Bytes, p ++ x = front ++ y →
      decode m p =
        if front.length ≤ p.length then .ok (some (f, p.drop front.length)) else .ok none := by
  obtain ⟨front, rfl, hfront⟩ := decode_taken h
  refine ⟨front, rfl, fun p x y hp => ?_⟩
  by_cases hlen : front.length ≤ p.length
  · have htake : p.take front.length = front := by
      have := congrArg (List.take front.length) hp
      rwa [List.take_append_of_le_length hlen, List.take_left] at this
    rw [if_pos hlen]
    conv_lhs => rw [← List.take_append_drop front.length p, htake]
    exact hfront _
  · rw [if_neg hlen]
    by_contra hd
    -- Whatever was found in the part would be found in the whole, with bytes left over.
    have hmore := decode_append p x hd
    rw [hp, hfront y] at hmore
    match hr : decode m p, hd with
    | .error e, _ => rw [hr] at hmore; cases hmore
    | .ok (some (g, r)), _ =>
      rw [hr] at hmore
      have hy : y = r ++ x := (Prod.mk.inj (Option.some.inj (Except.ok.inj hmore))).2
      rw [hy, ← List.append_assoc] at hp
      rw [List.append_cancel_right hp, List.length_append] at hlen
      omega

theorem decode_shorter {f : Frame} (h : decode m bs = .ok (some (f, rest))) :
    rest.length < bs.length := by
  obtain ⟨front, rfl, hfront⟩ := decode_taken h
  cases front with
  | nil => exact absurd (hfront []) nofun
  | cons b front => simp only [List.length_append, List.length_cons]; omega

end Frame

/-! ## Reading -/

namespace BinaryEnd

/-- What is made of a frame has nothing to do with the bytes behind it. -/
theorem account_buffer (b : BinaryEnd) (f : Frame) (bs : Bytes) :
    ({ b with buffer := bs } : BinaryEnd).account f =
      ((b.account f).1, { (b.account f).2 with buffer := bs }) := by
  unfold account
  dsimp only
  split
  · rfl
  · split
    · split <;> rfl
    · rfl

theorem deliver_buffer (b : BinaryEnd) (f : Frame) (bs : Bytes) :
    ({ b with buffer := bs } : BinaryEnd).deliver f =
      ((b.deliver f).1, { (b.deliver f).2 with buffer := bs }) := by
  unfold deliver abandonClosed
  dsimp only
  split
  · rfl
  · rfl
  · rfl
  · split <;> rfl

theorem accept_buffer (b : BinaryEnd) (f : Frame) (bs : Bytes) :
    ({ b with buffer := bs } : BinaryEnd).accept f =
      ((b.accept f).1, { (b.accept f).2 with buffer := bs }) := by
  simp only [accept, account_buffer]
  obtain ⟨r, b'⟩ := b.account f
  cases r with
  | error e => rfl
  | ok u => exact deliver_buffer b' f bs

theorem nextFrom_fuel : ∀ {fuel fuel' : Nat} {b : BinaryEnd}, b.buffer.length < fuel →
    b.buffer.length < fuel' → nextFrom fuel b = nextFrom fuel' b
  | 0, _, _, h, _ => absurd h (Nat.not_lt_zero _)
  | _, 0, _, _, h => absurd h (Nat.not_lt_zero _)
  | fuel + 1, fuel' + 1, b, h, h' => by
    rw [nextFrom, nextFrom]
    cases hd : Frame.decode b.maxBody b.buffer with
    | error e => rfl
    | ok o =>
      match o with
      | none => rfl
      | some (f, rest) =>
        have hshort := Frame.decode_shorter hd
        simp only [accept_buffer]
        obtain ⟨r, b'⟩ := b.accept f
        cases r with
        | some r => rfl
        | none =>
          refine nextFrom_fuel ?_ ?_
          · exact Nat.lt_of_lt_of_le hshort (Nat.le_of_lt_succ h)
          · exact Nat.lt_of_lt_of_le hshort (Nat.le_of_lt_succ h')

theorem next_eq (b : BinaryEnd) : b.next =
    match Frame.decode b.maxBody b.buffer with
    | .error e => (.error e, b)
    | .ok none => (.ok none, b)
    | .ok (some (f, rest)) =>
      match { b with buffer := rest }.accept f with
      | (none, b) => b.next
      | (some r, b) => (r.map some, b) := by
  rw [next, nextFrom]
  cases hd : Frame.decode b.maxBody b.buffer with
  | error e => rfl
  | ok o =>
    match o with
    | none => rfl
    | some (f, rest) =>
      have hshort := Frame.decode_shorter hd
      simp only [accept_buffer]
      obtain ⟨r, b'⟩ := b.accept f
      cases r with
      | some r => rfl
      | none => exact nextFrom_fuel hshort (Nat.lt_succ_self _)

/-- What an end has found it finds whatever follows; as long as it finds nothing, it has only put
away frames that bring nothing. -/
theorem next_feed (x : Bytes) (b : BinaryEnd) :
    (b.next.1 ≠ .ok none → (b.feed x).next = (b.next.1, b.next.2.feed x)) ∧
      (b.next.1 = .ok none → (b.feed x).next = (b.next.2.feed x).next) ∧
      (b.next.1.isLast = false → b.next.2.buffer.length < b.buffer.length) := by
  rw [next_eq b]
  cases hd : Frame.decode b.maxBody b.buffer with
  | error e =>
    have hmore := Frame.decode_append (m := b.maxBody) b.buffer x (by simp [hd])
    rw [hd] at hmore
    refine ⟨fun _ => ?_, fun h => ?_, fun h => ?_⟩
    · rw [next_eq]
      simp only [feed, hmore, Frame.more]
    · cases h
    · exact absurd (Frame.decode_fatal hd) (by simpa [Decoding.isLast] using h)
  | ok o =>
    cases o with
    | none => exact ⟨fun h => absurd rfl h, fun _ => rfl, fun h => Bool.noConfusion h⟩
    | some p =>
      obtain ⟨f, rest⟩ := p
      have hshort := Frame.decode_shorter hd
      have hmore := Frame.decode_append (m := b.maxBody) b.buffer x (by simp [hd])
      rw [hd] at hmore
      rw [next_eq (b.feed x)]
      simp only [feed, hmore, Frame.more, accept_buffer]
      obtain ⟨r, b'⟩ := b.accept f
      cases r with
      | some r =>
        refine ⟨fun _ => rfl, fun h => ?_, fun _ => hshort⟩
        cases r <;> cases h
      | none =>
        -- The frame brought nothing, and what is behind it is shorter.
        obtain ⟨h1, h2, h3⟩ := next_feed x { b' with buffer := rest }
        exact ⟨h1, h2, fun h => Nat.lt_trans (h3 h) hshort⟩
termination_by b.buffer.length
decreasing_by exact hshort

def decoder : Decoder BinaryEnd := ⟨feed, next, fun b => b.buffer.length⟩

theorem decoder_patient : decoder.Patient where
  feed_nil b := by simp [decoder, feed]
  feed_feed b x y := by simp [decoder, feed]
  found := by
    intro b b' r x hnext hmore
    have hfeed := (next_feed x b).1
    rw [show b.next = (r, b') from hnext] at hfeed
    refine hfeed fun hr => ?_
    rw [show r = .ok none from hr] at hmore
    cases hmore
  missing := by
    intro b b' x hnext
    have hfeed := (next_feed x b).2.1
    rw [show b.next = (.ok none, b') from hnext] at hfeed
    exact hfeed rfl
  shrinks := by
    intro b b' r hnext hmore
    have hfeed := (next_feed [] b).2.2
    rw [show b.next = (r, b') from hnext] at hfeed
    exact hfeed hmore

/-- An error in front of some bytes is the same whatever follows. -/
theorem decoder_refuses {b b' : BinaryEnd} {e : FrameError} (x : Bytes)
    (h : decoder.next b = (.error e, b')) :
    decoder.next (decoder.feed b x) = (.error e, decoder.feed b' x) := by
  have hfeed := (next_feed x b).1
  rw [show b.next = (.error e, b') from h] at hfeed
  exact hfeed nofun

theorem next_empty {b : BinaryEnd} (h : b.buffer = []) : b.next = (.ok none, b) := by
  rw [next_eq, h]
  rfl

def readPieces (b : BinaryEnd) (cs : List Bytes) : List Decoding × BinaryEnd :=
  decoder.inPieces cs b

/-- However a stream is cut, the messages and errors are the same, and so are the counters and the
payloads in progress. A frame or an error that was found in front of some bytes is found there
whatever follows, and a frame is found exactly when all of its bytes are there. -/
theorem cut_frames_agree (c : LinkConfig) (codec : BodyCodec) :
    (∀ cs cs' : List Bytes, cs.flatten = cs'.flatten →
      ((c.binaryEnd codec).readPieces cs).1 = ((c.binaryEnd codec).readPieces cs').1 ∧
      ((c.binaryEnd codec).readPieces cs).2.window =
        ((c.binaryEnd codec).readPieces cs').2.window ∧
      ((c.binaryEnd codec).readPieces cs).2.reassembler =
        ((c.binaryEnd codec).readPieces cs').2.reassembler) ∧
    (∀ bs x, Frame.decode c.maxFrameSize bs ≠ .ok none →
      Frame.decode c.maxFrameSize (bs ++ x) = Frame.more x (Frame.decode c.maxFrameSize bs)) ∧
    ∀ bs f rest, Frame.decode c.maxFrameSize bs = .ok (some (f, rest)) →
      ∃ front, bs = front ++ rest ∧ ∀ p x y : Bytes, p ++ x = front ++ y →
        Frame.decode c.maxFrameSize p =
          if front.length ≤ p.length then .ok (some (f, p.drop front.length)) else .ok none := by
  refine ⟨fun cs cs' h => ?_, fun bs x => Frame.decode_append bs x,
    fun bs f rest => Frame.decode_front⟩
  have hempty : decoder.next (c.binaryEnd codec) = (.ok none, c.binaryEnd codec) :=
    next_empty (b := c.binaryEnd codec) rfl
  have hagree := decoder_patient.inPieces_agree (fun x h _ => decoder_refuses x h) hempty h
  obtain ⟨hsame, x, y, hstate⟩ := hagree
  have hwindow := congrArg BinaryEnd.window hstate
  have hreassembler := congrArg BinaryEnd.reassembler hstate
  exact ⟨hsame, hwindow, hreassembler⟩

/-- A numbered ping is counted when its last byte has come. -/
def pingFrame : Frame := { type := .ping, rid := 0, headers := { seq := some 1 } }

theorem cut_ping_counted :
    (({} : LinkConfig).binaryEnd .json |>.readPieces
        [pingFrame.encode.take 5, pingFrame.encode.drop 5]).2.window.received = 1 ∧
      Frame.decode 16384 (pingFrame.encode.take 5) = .ok none := by
  obtain ⟨hcut, -, hfront⟩ := cut_frames_agree {} .json
  refine ⟨?_, ?_⟩
  · obtain ⟨-, hwindow, -⟩ := hcut [pingFrame.encode.take 5, pingFrame.encode.drop 5]
      [pingFrame.encode] (by decide +kernel)
    rw [hwindow]
    decide +kernel
  · have hwhole : Frame.decode 16384 pingFrame.encode = .ok (some (pingFrame, [])) := by
      decide +kernel
    obtain ⟨front, hall, hpart⟩ := hfront _ _ _ hwhole
    rw [List.append_nil] at hall
    have hnone := hpart (pingFrame.encode.take 5) (pingFrame.encode.drop 5) [] (by
      rw [List.take_append_drop, List.append_nil, hall])
    rwa [← hall, if_neg (by decide +kernel)] at hnone

end BinaryEnd
end PeerLink
