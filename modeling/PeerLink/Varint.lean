import PeerLink.Bytes

/-! # Variable-length numbers

Seven bits to a byte, the lowest first; the high bit says that another byte follows.

* `Varint.encode`: the shortest form of a number.
* `Varint.decode`: a number from the front of a byte string, of at most ten bytes.
-/

namespace PeerLink.Varint
set_option autoImplicit false

/-! ## Writing -/

/-- The shortest form of a number. -/
def encode (n : Nat) : Bytes :=
  if n < 128 then [UInt8.ofNat n] else UInt8.ofNat (n % 128 + 128) :: encode (n / 128)
termination_by n
decreasing_by omega

theorem encode_of_lt {n : Nat} (h : n < 128) : encode n = [UInt8.ofNat n] := by
  rw [encode, if_pos h]

theorem encode_of_le {n : Nat} (h : 128 ≤ n) :
    encode n = UInt8.ofNat (n % 128 + 128) :: encode (n / 128) := by
  rw [encode, if_neg (by omega)]

/-! ## Reading -/

/-- What the front of a byte string holds. -/
inductive Reading
  | done (value : Nat) (rest : Bytes)
  | short
  | long
deriving DecidableEq

/-- Reads at most `room` groups of seven bits. -/
def groups : Nat → Bytes → Reading
  | 0, _ => .long
  | _ + 1, [] => .short
  | room + 1, b :: bs =>
    if b.toNat < 128 then .done b.toNat bs
    else
      match groups room bs with
      | .done v rest => .done (b.toNat % 128 + 128 * v) rest
      | r => r

/-- A number of at most ten bytes; bits beyond the sixty-fourth are dropped. -/
def decode (bs : Bytes) : Reading :=
  match groups 10 bs with
  | .done v rest => .done (v % 2 ^ 64) rest
  | r => r

/-- Any number of fewer than `7 * room` bits reads back, whatever follows it. -/
theorem groups_encode :
    ∀ (room n : Nat) (rest : Bytes), n < 128 ^ room → 0 < room →
      groups room (encode n ++ rest) = .done n rest
  | 0, _, _, _, h => absurd h (by omega)
  | room + 1, n, rest, hn, _ => by
    by_cases h : n < 128
    · have hb : (UInt8.ofNat n).toNat = n := by simp [UInt8.toNat_ofNat']; omega
      simp [encode_of_lt h, groups, hb, h]
    · have hb : (UInt8.ofNat (n % 128 + 128)).toNat = n % 128 + 128 := by
        simp [UInt8.toNat_ofNat']; omega
      have hroom : 0 < room := by
        cases room with
        | zero => simp at hn; omega
        | succ r => omega
      have hq : n / 128 < 128 ^ room := by
        rw [Nat.div_lt_iff_lt_mul (by decide)]
        rwa [Nat.pow_succ] at hn
      have ih := groups_encode room (n / 128) rest hq hroom
      rw [encode_of_le (by omega), List.cons_append]
      simp only [groups, hb, ih, if_neg (show ¬ n % 128 + 128 < 128 by omega)]
      congr 1
      omega

theorem decode_encode {n : Nat} (rest : Bytes) (h : n < 2 ^ 64) :
    decode (encode n ++ rest) = .done n rest := by
  have h10 : n < 128 ^ 10 := Nat.lt_trans h (by decide)
  simp only [decode, groups_encode 10 n rest h10 (by decide), Nat.mod_eq_of_lt h]

end PeerLink.Varint
