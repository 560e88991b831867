import PeerLink.Json.Raw
import PeerLink.Json.Value

/-! # What strings and numbers spell

* `StringPart.text?`: the text of a string; half a surrogate pair and bytes that are not UTF-8 have
  none.
* `NumberText.number?`: a whole number of at most 64 bits is kept; any other number is the nearest
  double to its leading digits, scaled once by a power of ten.
-/

namespace PeerLink.Json
set_option autoImplicit false

/-! ## Strings -/

def utf8OfCode (n : Nat) : Bytes := Bytes.ofString (String.singleton (Char.ofNat n))

def StringPart.bytes? (acc : Bytes) : List StringPart → Option Bytes
  | [] => some acc.reverse
  | .byte b :: ps => bytes? (b :: acc) ps
  | .unit u :: ps =>
    if u < 0xD800 ∨ 0xDFFF < u then bytes? ((utf8OfCode u).reverse ++ acc) ps
    else if 0xDC00 ≤ u then none
    else
      match ps with
      | .unit v :: ps =>
        if 0xDC00 ≤ v ∧ v ≤ 0xDFFF then
          bytes? ((utf8OfCode ((u - 0xD800) * 1024 + (v - 0xDC00) + 0x10000)).reverse ++ acc) ps
        else none
      | _ => none

def StringPart.text? (ps : List StringPart) : Option String :=
  (StringPart.bytes? [] ps).bind Bytes.toString?

/-! ## Numbers -/

namespace NumberText

/-- Leading digits that fit 64 bits, and the power of ten that scales them. -/
structure Scaled where
  significand : Nat
  power : Int
  full : Bool

/-- Takes a digit before the point; once one does not fit, the others only count. -/
def Scaled.pushWhole (s : Scaled) (d : Nat) : Scaled :=
  if s.full then { s with power := s.power + 1 }
  else if s.significand * 10 + d < 2 ^ 64 then { s with significand := s.significand * 10 + d }
  else { s with power := s.power + 1, full := true }

/-- Takes a digit after the point; once one does not fit, the others are passed over. -/
def Scaled.pushFraction (s : Scaled) (d : Nat) : Scaled :=
  if s.full then s
  else if s.significand * 10 + d < 2 ^ 64 then
    { s with significand := s.significand * 10 + d, power := s.power - 1 }
  else { s with full := true }

/-- The greatest power of ten in the scaling table. -/
def maxPower : Nat := 308

def powerOfTen (k : Nat) : Binary64 := Binary64.nearest (10 ^ k) 1

/-- Divides by `10 ^ k`, in steps of the greatest power in the table. -/
def divide : Nat → Binary64 → Nat → Binary64
  | 0, _, _ => Binary64.zero
  | steps + 1, x, k =>
    if k ≤ maxPower then x.div (powerOfTen k)
    else if x.magnitude = 0 then x
    else divide steps (x.div (powerOfTen maxPower)) (k - maxPower)

/-- The significand scaled by one product, or by quotients; nothing if the number is too large. -/
def scale? (significand : Nat) (power : Int) : Option Binary64 :=
  let x := Binary64.ofNat significand
  if 0 ≤ power then
    if power.toNat ≤ maxPower then
      let y := x.mul (powerOfTen power.toNat)
      if y.isFinite then some y else none
    else if significand = 0 then some Binary64.zero
    else none
  else some (divide 4 x power.natAbs)

/-- Exponents from here on are all too great. -/
def exponentBound : Nat := 2 ^ 31

/-- The number the digits of an exponent spell; digits past the bound add nothing. -/
def exponentOf (ds : List Nat) : Nat :=
  ds.foldl (fun acc d => if acc < exponentBound then acc * 10 + d else acc) 0

/-- The double of a number that has a point, an exponent or too many digits. -/
def double? (n : NumberText) (whole : Scaled) : Option Binary64 :=
  let s :=
    match n.fraction with
    | none => whole
    | some ds => ds.foldl Scaled.pushFraction { whole with full := false }
  match n.exponent with
  | none => scale? s.significand s.power
  | some e =>
    let k := exponentOf e.digits
    if exponentBound ≤ k then
      if s.significand ≠ 0 && !e.negative then none else some Binary64.zero
    else scale? s.significand (if e.negative then s.power - k else s.power + k)

/-- The number spelled; nothing if it is beyond the doubles. -/
def number? (n : NumberText) : Option Number :=
  let whole := n.whole.foldl Scaled.pushWhole ⟨0, 0, false⟩
  let isWhole := !whole.full && n.fraction.isNone && n.exponent.isNone
  if isWhole && !n.negative then some (.nat whole.significand)
  else if isWhole && whole.significand ≠ 0 && whole.significand ≤ 2 ^ 63 then
    some (.neg whole.significand)
  else (n.double? whole).map fun x => .float (x.withSign n.negative)

end NumberText
end PeerLink.Json
