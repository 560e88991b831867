import PeerLink.Number.Power

/-! # Byte strings

* `Bytes`: a byte string as a list.
* `Bytes.ofNat32` and `Bytes.toNat`: numbers as bytes, the most significant first.
* `Bytes.ofString` and `Bytes.toString?`: UTF-8.
-/

namespace PeerLink
set_option autoImplicit false

abbrev Bytes := List UInt8

namespace Bytes

/-! ## Words -/

/-- The low 32 bits of a number, the most significant byte first. -/
def ofNat32 (n : Nat) : Bytes :=
  [UInt8.ofNat (n / 2 ^ 24), UInt8.ofNat (n / 2 ^ 16), UInt8.ofNat (n / 2 ^ 8), UInt8.ofNat n]

/-- The number whose bytes are given, the most significant first. -/
def toNat (bs : Bytes) : Nat := bs.foldl (fun acc b => acc * 256 + b.toNat) 0

@[simp] theorem length_ofNat32 (n : Nat) : (ofNat32 n).length = 4 := rfl

theorem toNat_ofNat32 {n : Nat} (h : n < 2 ^ 32) : toNat (ofNat32 n) = n := by
  simp only [ofNat32, toNat, List.foldl, UInt8.toNat_ofNat']
  omega

/-! ## Cutting -/

/-- The first `n` bytes and the rest, when there are that many. -/
def splitAt? (n : Nat) (bs : Bytes) : Option (Bytes × Bytes) :=
  if n ≤ bs.length then some (bs.take n, bs.drop n) else none

theorem splitAt?_append (a b : Bytes) : splitAt? a.length (a ++ b) = some (a, b) := by
  simp [splitAt?]

theorem splitAt?_eq_none {n : Nat} {bs : Bytes} : splitAt? n bs = none ↔ bs.length < n := by
  simp [splitAt?]

/-! ## Text -/

def ofString (s : String) : Bytes := s.toUTF8.data.toList

def toString? (bs : Bytes) : Option String := String.fromUTF8? ⟨bs.toArray⟩

theorem toString?_ofString (s : String) : toString? (ofString s) = some s := by
  simp only [toString?, ofString, String.fromUTF8?, String.toUTF8_eq_toByteArray,
    dif_pos s.isValidUTF8]
  rfl

end Bytes
end PeerLink
