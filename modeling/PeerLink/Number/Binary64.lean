import PeerLink.Number.Power

/-! # Binary floating point of 64 bits

* `Binary64`: a number by its 64 bits; every finite one is `significand * 2 ^ (exponent - 1074)`.
* `Binary64.nearest`: the number nearest to a quotient, a tie going to the even one.
* `mul`, `div`: the exact result, rounded once.
-/

namespace PeerLink
set_option autoImplicit false

structure Binary64 where
  bits : Nat
deriving DecidableEq

namespace Binary64

/-! ## Parts -/

def signBit : Nat := 2 ^ 63

def infinityBits : Nat := 2047 * 2 ^ 52

def isNegative (x : Binary64) : Bool := signBit ≤ x.bits

def magnitude (x : Binary64) : Nat := x.bits % signBit

def isFinite (x : Binary64) : Bool := x.magnitude < infinityBits

/-- The number of units in the last place. -/
def significand (x : Binary64) : Nat :=
  if x.magnitude < 2 ^ 52 then x.magnitude else x.magnitude % 2 ^ 52 + 2 ^ 52

/-- The unit in the last place is `2 ^ (exponent - 1074)`. -/
def exponent (x : Binary64) : Nat := x.magnitude / 2 ^ 52 - 1

def neg (x : Binary64) : Binary64 :=
  ⟨if x.isNegative then x.bits - signBit else x.bits + signBit⟩

def withSign (negative : Bool) (x : Binary64) : Binary64 := if negative then x.neg else x

def zero : Binary64 := ⟨0⟩

/-! ## Rounding -/

/-- The whole number nearest to `n / d`, a tie going to the even one. -/
def roundQuotient (n d : Nat) : Nat :=
  let q := n / d
  let r := n % d
  if d < 2 * r ∨ (2 * r = d ∧ q % 2 = 1) then q + 1 else q

/-- The exponent of the place that holds the last of 53 bits of `n / d`, counted in units of
`2 ^ -1074`. -/
def placeOf (n d : Nat) : Nat :=
  let up := n * 2 ^ 1074
  let e := up.log2 - d.log2
  let e := if d * 2 ^ e ≤ up then e else e - 1
  e - 52

/-- The number nearest to `n / d`, infinite when it is too large. -/
def nearest (n d : Nat) : Binary64 :=
  if n = 0 then zero
  else
    let e := placeOf n d
    let m := roundQuotient (n * 2 ^ 1074) (d * 2 ^ e)
    ⟨min (e * 2 ^ 52 + m) infinityBits⟩

def ofNat (n : Nat) : Binary64 := nearest n 1

/-! ## Products and quotients of positive numbers -/

def mul (x y : Binary64) : Binary64 :=
  nearest (x.significand * y.significand * 2 ^ (x.exponent + y.exponent)) (2 ^ 2148)

def div (x y : Binary64) : Binary64 :=
  nearest (x.significand * 2 ^ x.exponent) (y.significand * 2 ^ y.exponent)

end Binary64
end PeerLink
