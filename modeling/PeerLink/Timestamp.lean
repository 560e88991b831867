import PeerLink.Timestamp.Calendar

/-! # Timestamps

* `Timestamp`: an instant, to the nanosecond; nanoseconds from one to two milliards say that it lies
  in a leap second.
* `Timestamp.text`: RFC 3339 in UTC, the fraction in as many groups of three digits as it needs.
* `Timestamp.parse?`: RFC 3339 with some freedom: blanks between the parts, a blank or a small
  letter for `T`, parts of fewer digits, a signed year, `UTC` for the zone.
-/

namespace PeerLink
set_option autoImplicit false

/-- Seconds from the start of 1970 in UTC, and nanoseconds. -/
structure Timestamp where
  seconds : Int
  nanos : Nat
deriving DecidableEq

namespace Timestamp

/-! ## Writing -/

/-- A number in at least `width` digits. -/
def padded (width n : Nat) : List Char :=
  let ds := Nat.toDigits 10 n
  List.replicate (width - ds.length) '0' ++ ds

def yearChars (y : Int) : List Char :=
  if 0 ≤ y ∧ y ≤ 9999 then padded 4 y.natAbs
  else (if y < 0 then '-' else '+') :: padded 4 y.natAbs

def fractionChars (nanos : Nat) : List Char :=
  if nanos = 0 then []
  else if nanos % 1000000 = 0 then '.' :: padded 3 (nanos / 1000000)
  else if nanos % 1000 = 0 then '.' :: padded 6 (nanos / 1000)
  else '.' :: padded 9 nanos

def chars (t : Timestamp) : List Char :=
  let days := t.seconds.fdiv 86400
  let ofDay := (t.seconds - days * 86400).toNat
  let d := Date.ofDays days
  let leap := t.nanos / 1000000000
  yearChars d.year ++ '-' :: padded 2 d.month ++ '-' :: padded 2 d.day ++
    'T' :: padded 2 (ofDay / 3600) ++ ':' :: padded 2 (ofDay / 60 % 60) ++
    ':' :: padded 2 (ofDay % 60 + leap) ++ fractionChars (t.nanos % 1000000000) ++ ['Z']

def text (t : Timestamp) : String := String.ofList t.chars

/-! ## Blanks and numbers -/

def isBlank (c : Char) : Bool :=
  let n := c.toNat
  (9 ≤ n && n ≤ 13) || n == 0x20 || n == 0x85 || n == 0xA0 || n == 0x1680 ||
    (0x2000 ≤ n && n ≤ 0x200A) || n == 0x2028 || n == 0x2029 || n == 0x202F || n == 0x205F ||
    n == 0x3000

def skipBlanks (s : List Char) : List Char := s.dropWhile isBlank

def ofDigits (ds : List Char) : Nat := ds.foldl (fun acc d => acc * 10 + (d.toNat - 48)) 0

def digits (s : List Char) : List Char × List Char :=
  (s.takeWhile Char.isDigit, s.dropWhile Char.isDigit)

/-- A number of one to `width` digits. -/
def number? (width : Nat) (s : List Char) : Option (Nat × List Char) :=
  let ds := (digits s).1.take width
  if ds.isEmpty then none else some (ofDigits ds, s.drop ds.length)

/-- A number of any length, below `2 ^ 63`. -/
def longNumber? (s : List Char) : Option (Nat × List Char) :=
  let (ds, rest) := digits s
  if ds.isEmpty || 2 ^ 63 ≤ ofDigits ds then none else some (ofDigits ds, rest)

/-- A year: four digits at most, or a sign and any number of them. -/
def year? (s : List Char) : Option (Int × List Char) :=
  match skipBlanks s with
  | '-' :: s => (longNumber? s).map fun (n, s) => (-(n : Int), s)
  | '+' :: s => (longNumber? s).map fun (n, s) => ((n : Int), s)
  | s => (number? 4 s).map fun (n, s) => ((n : Int), s)

/-- A mark with blanks before and behind it, then a number of two digits at most. -/
def part? (mark : Char) (s : List Char) : Option (Nat × List Char) :=
  match skipBlanks s with
  | c :: s => if c = mark then number? 2 (skipBlanks s) else none
  | [] => none

/-! ## Reading -/

/-- The time of a day, with a leap second as nanoseconds beyond a milliard. -/
structure Clock where
  seconds : Nat
  nanos : Nat

def clock? (hour minute second nanos : Nat) : Option Clock :=
  if hour < 24 ∧ minute < 60 ∧ second ≤ 60 then
    if second = 60 then some ⟨hour * 3600 + minute * 60 + 59, nanos + 1000000000⟩
    else some ⟨hour * 3600 + minute * 60 + second, nanos⟩
  else none

/-- The fraction after a point, cut at nine digits. -/
def fraction? : List Char → Option (Nat × List Char)
  | '.' :: s =>
    let (ds, rest) := digits s
    if ds.isEmpty then none
    else
      let kept := ds.take 9
      some (ofDigits kept * 10 ^ (9 - kept.length), rest)
  | s => some (0, s)

def twoDigits? : List Char → Option (Nat × List Char)
  | a :: b :: s => if a.isDigit && b.isDigit then some (ofDigits [a, b], s) else none
  | _ => none

/-- The distance from UTC in seconds. -/
def offset? (s : List Char) : Option (Int × List Char) :=
  let signed (sign : Int) (s : List Char) : Option (Int × List Char) := do
    let (hours, s) ← twoDigits? s
    let s := s.dropWhile fun c => c == ':' || isBlank c
    let (minutes, s) ← twoDigits? s
    if minutes < 60 then pure (sign * (hours * 3600 + minutes * 60 : Nat), s) else none
  match s with
  | a :: b :: c :: rest =>
    if a.toUpper = 'U' ∧ b.toUpper = 'T' ∧ c.toUpper = 'C' then some (0, rest)
    else if a = 'Z' ∨ a = 'z' then some (0, b :: c :: rest)
    else if a = '+' then signed 1 (b :: c :: rest)
    else if a = '-' ∨ a = '−' then signed (-1) (b :: c :: rest)
    else none
  | a :: rest => if a = 'Z' ∨ a = 'z' then some (0, rest) else none
  | [] => none

/-- The instant that a date, a time of day and a distance from UTC name. -/
def ofParts? (date : Date) (time : Clock) (offset : Int) : Option Timestamp :=
  let seconds := date.toDays * 86400 + time.seconds - offset
  if date.isValid && (-86400 < offset && offset < 86400)
      && (Date.ofDays (seconds.fdiv 86400)).inYears then
    some ⟨seconds, time.nanos⟩
  else none

def parse? (text : String) : Option Timestamp := do
  let (year, s) ← year? text.toList
  let (month, s) ← part? '-' s
  let (day, s) ← part? '-' s
  let s ← match s with
    | c :: s => if c = 'T' ∨ c = 't' ∨ c = ' ' then some s else none
    | [] => none
  let (hour, s) ← number? 2 (skipBlanks s)
  let (minute, s) ← part? ':' s
  let (second, s) ← part? ':' s
  let (nanos, s) ← fraction? s
  let (offset, s) ← offset? (skipBlanks s)
  let time ← clock? hour minute second nanos
  if (skipBlanks s).isEmpty then ofParts? ⟨year, month, day⟩ time offset else none

end Timestamp
end PeerLink
