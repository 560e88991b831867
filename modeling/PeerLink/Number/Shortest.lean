import PeerLink.Number.Binary64

/-! # Shortest decimals

* `Shortest.digits`: the fewest decimal digits that read back as a given number, and among those the
  nearest to it.
* `Binary64.text`: those digits with a point inside, or with an exponent when they lie far from it.
-/

namespace PeerLink.Shortest
set_option autoImplicit false

structure Decimal where
  digits : Nat
  power : Int
deriving DecidableEq

/-! ## The interval that rounds to a number -/

/-- A positive number and the ends of its rounding interval, as quotients by `den`. -/
structure Interval where
  low : Nat
  value : Nat
  high : Nat
  den : Nat
  closed : Bool

/-- The reals that round to `x`; the ends belong to it when the significand is even. -/
def interval (x : Binary64) : Interval :=
  let m := x.significand
  let step := 2 ^ x.exponent
  let below := if m = 2 ^ 52 ∧ x.exponent ≠ 0 then 1 else 2
  { low := (4 * m - below) * step, value := 4 * m * step, high := (4 * m + 2) * step,
    den := 2 ^ 1076, closed := m % 2 = 0 }

/-- Whether `c * 10 ^ power` lies in the interval. -/
def Interval.holds (i : Interval) (c : Nat) (power : Int) : Bool :=
  let up := c * 10 ^ power.toNat * i.den
  let down := 10 ^ (-power).toNat
  let lo := i.low * down
  let hi := i.high * down
  if i.closed then lo ≤ up && up ≤ hi else lo < up && up < hi

/-! ## The decimal grid -/

/-- The greatest `e` among the candidates with `10 ^ e ≤ n / d`. -/
def decimalExponent (n d : Nat) : Int :=
  let bits : Int := (n.log2 : Int) - (d.log2 : Int)
  let guess := (bits * 1233).fdiv 4096
  let fits (e : Int) : Bool := d * 10 ^ e.toNat ≤ n * 10 ^ (-e).toNat
  if fits (guess + 1) then guess + 1
  else if fits guess then guess
  else if fits (guess - 1) then guess - 1
  else guess - 2

/-- The point of the grid `10 ^ power` in the interval that is nearest to its value. -/
def Interval.onGrid (i : Interval) (power : Int) : Option Nat :=
  let n := i.value * 10 ^ (-power).toNat
  let d := i.den * 10 ^ power.toNat
  let below := n / d
  let r := n % d
  let low := i.holds below power
  let high := i.holds (below + 1) power
  if low && high then
    if 2 * r < d ∨ (2 * r = d ∧ below % 2 = 0) then some below else some (below + 1)
  else if low then some below
  else if high then some (below + 1)
  else none

/-- Tries grids of ever more digits, `tries` of them. -/
def Interval.search (i : Interval) : Nat → Int → Decimal
  | 0, power => ⟨i.value * 10 ^ (-power).toNat / (i.den * 10 ^ power.toNat), power⟩
  | tries + 1, power =>
    match i.onGrid power with
    | some c => ⟨c, power⟩
    | none => i.search tries (power - 1)

/-- The fewest digits that read back as the positive number `x`. -/
def digits (x : Binary64) : Decimal :=
  let i := interval x
  i.search 17 (decimalExponent i.value i.den)

/-! ## Text -/

def digitChars (n : Nat) : List Char := Nat.toDigits 10 n

def trimZeros (cs : List Char) : List Char := (cs.reverse.dropWhile (· = '0')).reverse

/-- Digits with the point after the first `point` of them. -/
def plain (ds : List Char) (point : Int) : List Char :=
  if point ≤ 0 then '0' :: '.' :: List.replicate (-point).toNat '0' ++ ds
  else if ds.length ≤ point.toNat then
    ds ++ List.replicate (point.toNat - ds.length) '0' ++ ['.', '0']
  else ds.take point.toNat ++ '.' :: ds.drop point.toNat

/-- One digit before the point and a signed exponent. -/
def scientific (ds : List Char) (e : Int) : List Char :=
  let mantissa :=
    match ds with
    | [] => []
    | [d] => [d]
    | d :: rest => d :: '.' :: rest
  mantissa ++ 'e' :: (if 0 ≤ e then '+' else '-') :: digitChars e.natAbs

/-- Plain when the first digit stands at `10 ^ -5` to `10 ^ 15`. -/
def Decimal.text (d : Decimal) : List Char :=
  let all := digitChars d.digits
  let e := d.power + all.length - 1
  let ds := trimZeros all
  if -5 ≤ e ∧ e ≤ 15 then plain ds (e + 1) else scientific ds e

end PeerLink.Shortest

namespace PeerLink

/-- The shortest text that reads back as the number. -/
def Binary64.text (x : Binary64) : List Char :=
  let sign := if x.isNegative then ['-'] else []
  if x.magnitude = 0 then sign ++ ['0', '.', '0']
  else sign ++ (Shortest.digits x).text

end PeerLink
