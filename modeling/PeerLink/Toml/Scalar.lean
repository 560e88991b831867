import PeerLink.Number.Binary64
import PeerLink.Timestamp.Calendar
import PeerLink.Toml.Item

/-! # TOML scalars

* `string?`: the four kinds of strings.
* `number?`: whole numbers of 64 bits; numbers with a point or an exponent, which must not be
  beyond the doubles.
* `time?`: dates and times of day.
-/

namespace PeerLink.Toml
set_option autoImplicit false

/-- A reader gives what is in front of a text, and the rest. -/
abbrev Reader (α : Type) := List Char → Option (α × List Char)

/-! ## Blanks and line ends -/

def isBlank (c : Char) : Bool := c == ' ' || c == '\t'

def skipBlanks (cs : List Char) : List Char := cs.dropWhile isBlank

def newline? : List Char → Option (List Char)
  | '\n' :: cs => some cs
  | '\x0d' :: '\n' :: cs => some cs
  | _ => none

/-- Characters of comments: all but controls, a tab allowed. -/
def isText (c : Char) : Bool :=
  c == '\t' || (0x20 ≤ c.toNat && c.toNat ≤ 0x7E) || 0x80 ≤ c.toNat

def skipComment : List Char → List Char
  | '#' :: cs => cs.dropWhile isText
  | cs => cs

/-- The rest after the end of a line, or of the text. -/
def lineEnd? (cs : List Char) : Option (List Char) :=
  match skipComment (skipBlanks cs) with
  | [] => some []
  | cs => newline? cs

/-- Passes over blanks, line ends and comments; `inComment` after the mark of one. -/
def skipLinesFrom (inComment : Bool) : List Char → List Char
  | '\n' :: cs => skipLinesFrom false cs
  | '\x0d' :: '\n' :: cs => skipLinesFrom false cs
  | c :: cs =>
    if if inComment then isText c else isBlank c then skipLinesFrom inComment cs
    else if c = '#' ∧ !inComment then skipLinesFrom true cs
    else c :: cs
  | [] => []

def skipLines : List Char → List Char := skipLinesFrom false

/-! ## Strings -/

def hexValue? (c : Char) : Option Nat :=
  if '0' ≤ c ∧ c ≤ '9' then some (c.toNat - 48)
  else if 'a' ≤ c ∧ c ≤ 'f' then some (c.toNat - 87)
  else if 'A' ≤ c ∧ c ≤ 'F' then some (c.toNat - 55)
  else none

/-- The character of a code of `count` hexadecimal digits. -/
def codeChar? (count : Nat) (cs : List Char) : Option (Char × List Char) := do
  let digits := cs.take count
  let values ← digits.mapM hexValue?
  let code := values.foldl (fun acc d => acc * 16 + d) 0
  if digits.length = count ∧ code.isValidChar then pure (Char.ofNat code, cs.drop count) else none

def escape? : Reader Char
  | 'b' :: cs => some ('\x08', cs)
  | 'f' :: cs => some ('\x0c', cs)
  | 'n' :: cs => some ('\n', cs)
  | 'r' :: cs => some ('\x0d', cs)
  | 't' :: cs => some ('\t', cs)
  | '"' :: cs => some ('"', cs)
  | '\\' :: cs => some ('\\', cs)
  | 'u' :: cs => codeChar? 4 cs
  | 'U' :: cs => codeChar? 8 cs
  | _ => none

/-- The rest of a string in double quotes on one line. -/
def basic? : Nat → List Char → Reader String
  | 0, _, _ => none
  | _ + 1, acc, '"' :: cs => some (String.ofList acc.reverse, cs)
  | fuel + 1, acc, '\\' :: cs =>
    match escape? cs with
    | some (c, cs) => basic? fuel (c :: acc) cs
    | none => none
  | fuel + 1, acc, c :: cs => if isText c then basic? fuel (c :: acc) cs else none
  | _ + 1, _, [] => none

/-- The rest of a string in single quotes on one line. -/
def literal? (cs : List Char) : Option (String × List Char) :=
  match cs.dropWhile fun c => isText c && c != '\'' with
  | '\'' :: rest => some (String.ofList (cs.takeWhile fun c => isText c && c != '\''), rest)
  | _ => none

/-- Passes over blanks and line ends. -/
def skipBlankLines : List Char → List Char
  | '\n' :: cs => skipBlankLines cs
  | '\x0d' :: '\n' :: cs => skipBlankLines cs
  | c :: cs => if isBlank c then skipBlankLines cs else c :: cs
  | [] => []

/-- The rest of a line after a backslash at its end, without the blanks and line ends that
follow. -/
def continued? (cs : List Char) : Option (List Char) :=
  (newline? (skipBlanks cs)).map skipBlankLines

/-- The rest of a string of several lines between triple quotes. Up to two more quotes may stand
before the closing ones. -/
def multi? (quote : Char) (escapes : Bool) : Nat → List Char → Reader String
  | 0, _, _ => none
  | _ + 1, _, [] => none
  | fuel + 1, acc, c :: cs =>
    if c = quote then
      let quotes := ((c :: cs).takeWhile (· == quote)).length
      if quotes < 3 then multi? quote escapes fuel (c :: acc) cs
      else
        let all := min quotes 5
        let text := List.replicate (all - 3) quote ++ acc
        some (String.ofList text.reverse, (c :: cs).drop all)
    else if c = '\\' ∧ escapes then
      match continued? cs with
      | some cs => multi? quote escapes fuel acc cs
      | none =>
        match escape? cs with
        | some (c, cs) => multi? quote escapes fuel (c :: acc) cs
        | none => none
    else
      match newline? (c :: cs) with
      | some cs => multi? quote escapes fuel ('\n' :: acc) cs
      | none => if isText c then multi? quote escapes fuel (c :: acc) cs else none

/-- Drops a line end that follows the opening quotes at once. -/
def afterOpening (cs : List Char) : List Char := (newline? cs).getD cs

def lineString? : Reader String
  | '"' :: cs => basic? (cs.length + 1) [] cs
  | '\'' :: cs => literal? cs
  | _ => none

def string? : Reader String
  | '"' :: '"' :: '"' :: cs => multi? '"' true (cs.length + 1) [] (afterOpening cs)
  | '\'' :: '\'' :: '\'' :: cs => multi? '\'' false (cs.length + 1) [] (afterOpening cs)
  | cs => lineString? cs

/-! ## Numbers -/

def digits? (isDigit : Char → Bool) : List Char → Option (List Char × List Char)
  | [] => some ([], [])
  | '_' :: c :: cs =>
    if isDigit c then (digits? isDigit cs).map fun (ds, rest) => (c :: ds, rest) else none
  | ['_'] => none
  | c :: cs =>
    if isDigit c then (digits? isDigit cs).map fun (ds, rest) => (c :: ds, rest)
    else some ([], c :: cs)

def someDigits? (isDigit : Char → Bool) : List Char → Option (List Char × List Char)
  | c :: cs =>
    if isDigit c then (digits? isDigit cs).map fun (ds, rest) => (c :: ds, rest) else none
  | [] => none

/-- A sign, and the text without it. -/
def sign : List Char → Bool × List Char
  | '+' :: cs => (false, cs)
  | '-' :: cs => (true, cs)
  | cs => (false, cs)

/-- The digits of a whole number; a zero in front stands alone. -/
def whole? : List Char → Option (List Char × List Char)
  | '0' :: cs => some (['0'], cs)
  | cs => someDigits? Char.isDigit cs

def ofDigits (base : Nat) (ds : List Char) : Nat :=
  ds.foldl (fun acc d => acc * base + (hexValue? d).getD 0) 0

/-- Whether `n * 10 ^ k` rounds to a double; zero does, and what has too many digits does not. -/
def roundsToDouble (n : Nat) (k : Int) : Bool :=
  if n = 0 then true
  else
    let size : Int := (Nat.toDigits 10 n).length + k
    if size < 300 then true
    else if 320 < size then false
    else if 0 ≤ k then (Binary64.nearest (n * 10 ^ k.toNat) 1).isFinite
    else (Binary64.nearest n (10 ^ k.natAbs)).isFinite

/-- The exponent of a number, if one follows. -/
def exponent? : List Char → Option (Option Int × List Char)
  | c :: cs =>
    if c = 'e' ∨ c = 'E' then
      let (negative, cs) := sign cs
      (someDigits? Char.isDigit cs).map fun (ds, rest) =>
        let k := ofDigits 10 ds
        (some (if negative then -(k : Int) else k), rest)
    else some (none, c :: cs)
  | [] => some (none, [])

/-- The digits after a point, if one follows. -/
def fraction? : List Char → Option (Option (List Char) × List Char)
  | '.' :: cs => (someDigits? Char.isDigit cs).map fun (ds, rest) => (some ds, rest)
  | cs => some (none, cs)

def int64? (negative : Bool) (n : Nat) : Option Item :=
  if n < 2 ^ 63 ∨ (negative ∧ n = 2 ^ 63) then
    some (.integer (if negative then -(n : Int) else n))
  else none

/-- A number in decimal; a point or an exponent makes it other than whole. Only a positive number
can be too large. -/
def decimal? (negative : Bool) (cs : List Char) : Option (Item × List Char) := do
  let (ds, cs) ← whole? cs
  let (fraction, cs) ← fraction? cs
  let (exponent, cs) ← exponent? cs
  if fraction.isNone && exponent.isNone then
    let n ← int64? negative (ofDigits 10 ds)
    pure (n, cs)
  else
    let after := fraction.getD []
    let n := ofDigits 10 (ds ++ after)
    if negative || roundsToDouble n (exponent.getD 0 - after.length) then pure (.other, cs)
    else none

/-- A whole number to a base, without a sign. -/
def based? (base : Nat) (cs : List Char) : Option (Item × List Char) := do
  let (ds, cs) ← someDigits? (fun c => (hexValue? c).any (· < base)) cs
  let n ← int64? false (ofDigits base ds)
  pure (n, cs)

def word? (word : List Char) (cs : List Char) : Option (List Char) :=
  if word.isPrefixOf cs then some (cs.drop word.length) else none

def number? (cs : List Char) : Option (Item × List Char) :=
  match cs with
  | '0' :: 'x' :: cs => based? 16 cs
  | '0' :: 'o' :: cs => based? 8 cs
  | '0' :: 'b' :: cs => based? 2 cs
  | cs =>
    let (negative, cs) := sign cs
    match (word? ['i', 'n', 'f'] cs).or (word? ['n', 'a', 'n'] cs) with
    | some cs => some (.other, cs)
    | none => decimal? negative cs

/-! ## Dates and times -/

/-- A number of exactly `count` digits. -/
def fixed? (count : Nat) (cs : List Char) : Option (Nat × List Char) :=
  let ds := cs.take count
  if ds.length = count ∧ ds.all Char.isDigit then some (ofDigits 10 ds, cs.drop count) else none

def mark? (c : Char) : List Char → Option (List Char)
  | c' :: cs => if c = c' then some cs else none
  | [] => none

/-- The rest after a fraction of a second, if there is one. -/
def skipFraction? : List Char → Option (List Char)
  | '.' :: cs =>
    let rest := cs.dropWhile Char.isDigit
    if rest.length < cs.length then some rest else none
  | cs => some cs

/-- A time of day up to its minutes, and what follows. -/
def minutes? (cs : List Char) : Option (List Char) := do
  let (hour, cs) ← fixed? 2 cs
  let cs ← mark? ':' cs
  let (minute, cs) ← fixed? 2 cs
  if hour < 24 ∧ minute < 60 then pure cs else none

def clock? (cs : List Char) : Option (List Char) := do
  let cs ← minutes? cs
  let cs ← mark? ':' cs
  let (second, cs) ← fixed? 2 cs
  if second ≤ 60 then skipFraction? cs else none

/-- The rest after a distance from UTC, if there is one. -/
def skipOffset? : List Char → Option (List Char)
  | 'Z' :: cs | 'z' :: cs => some cs
  | '+' :: cs | '-' :: cs => minutes? cs
  | cs => some cs

def date? (cs : List Char) : Option (List Char) := do
  let (year, cs) ← fixed? 4 cs
  let cs ← mark? '-' cs
  let (month, cs) ← fixed? 2 cs
  let cs ← mark? '-' cs
  let (day, cs) ← fixed? 2 cs
  if Date.isValid ⟨year, month, day⟩ then pure cs else none

/-- The rest after a time behind a date, if there is one. -/
def skipTime? : List Char → Option (List Char)
  | [] => some []
  | c :: cs =>
    if c = 'T' ∨ c = 't' ∨ c = ' ' then
      match fixed? 2 cs with
      | none => some (c :: cs)
      | some _ => (clock? cs).bind skipOffset?
    else some (c :: cs)

/-- Whether a text begins like a date or a time: with so many digits and then a mark. -/
def beginsWith (count : Nat) (mark : Char) (cs : List Char) : Bool :=
  ((fixed? count cs).bind fun (_, cs) => mark? mark cs).isSome

/-- A date, a time of day, or both. -/
def time? (cs : List Char) : Option (Item × List Char) :=
  if beginsWith 4 '-' cs then ((date? cs).bind skipTime?).map (.time, ·)
  else (clock? cs).map (.time, ·)

/-- A date, a time or a number. -/
def timeOrNumber? (cs : List Char) : Option (Item × List Char) :=
  if beginsWith 4 '-' cs || beginsWith 2 ':' cs then time? cs else number? cs

end PeerLink.Toml
