import PeerLink.Number.Power

/-! # The calendar

* `Date`: a date of the Gregorian calendar, extended to all years.
* `Date.toDays`, `Date.ofDays`: days counted from the first of January 1970.
-/

namespace PeerLink
set_option autoImplicit false

structure Date where
  year : Int
  month : Nat
  day : Nat
deriving DecidableEq

namespace Date

/-! ## Lengths -/

def isLeapYear (y : Int) : Bool := y % 4 = 0 && (y % 100 ≠ 0 || y % 400 = 0)

def daysInMonth (y : Int) (m : Nat) : Nat :=
  if m = 2 then if isLeapYear y then 29 else 28
  else if m = 4 ∨ m = 6 ∨ m = 9 ∨ m = 11 then 30
  else 31

/-- The greatest and the least year with a date. -/
def maxYear : Int := 262142
def minYear : Int := -262143

def inYears (d : Date) : Bool := minYear ≤ d.year && d.year ≤ maxYear

def isValid (d : Date) : Bool :=
  d.inYears && 1 ≤ d.month && d.month ≤ 12 && 1 ≤ d.day && d.day ≤ daysInMonth d.year d.month

/-! ## Counting days

Years are counted from March, so that the leap day is the last of its year; a cycle of 400 years
has 146097 days, and the first of March of year 0 stands 719468 days before 1970. -/

def toDays (d : Date) : Int :=
  let y := if d.month ≤ 2 then d.year - 1 else d.year
  let m : Int := if d.month ≤ 2 then d.month + 9 else d.month - 3
  let cycle := y.fdiv 400
  let ofCycle := y - cycle * 400
  let dayOfYear := (153 * m + 2) / 5 + d.day - 1
  cycle * 146097 + ofCycle * 365 + ofCycle / 4 - ofCycle / 100 + dayOfYear - 719468

def ofDays (n : Int) : Date :=
  let n := n + 719468
  let cycle := n.fdiv 146097
  let dayOfCycle := n - cycle * 146097
  let year := (dayOfCycle - dayOfCycle / 1460 + dayOfCycle / 36524 - dayOfCycle / 146096) / 365
  let dayOfYear := dayOfCycle - (365 * year + year / 4 - year / 100)
  let m := (5 * dayOfYear + 2) / 153
  let day := dayOfYear - (153 * m + 2) / 5 + 1
  let month := if m < 10 then m + 3 else m - 9
  let y := year + cycle * 400
  ⟨if month ≤ 2 then y + 1 else y, month.toNat, day.toNat⟩

end Date
end PeerLink
