import PeerLink.Bytes

/-! # JSON documents as written

* `Raw`: a document whose strings and numbers are not yet read.
* `Raw.parse`: the document a byte string spells; it checks the grammar and nothing else.
-/

namespace PeerLink.Json
set_option autoImplicit false

/-! ## Documents -/

/-- A piece of a string: a byte, or the code unit of a `\u` escape. -/
inductive StringPart
  | byte (b : UInt8)
  | unit (u : Nat)
deriving DecidableEq

structure ExponentText where
  negative : Bool
  digits : List Nat
deriving DecidableEq

structure NumberText where
  negative : Bool
  whole : List Nat
  fraction : Option (List Nat)
  exponent : Option ExponentText
deriving DecidableEq

inductive Raw
  | null
  | bool (b : Bool)
  | number (n : NumberText)
  | string (parts : List StringPart)
  | array (items : List Raw)
  | object (members : List (List StringPart × Raw))

namespace Raw

/-! ## Blanks and words -/

def isBlank (b : UInt8) : Bool := b == 32 || b == 9 || b == 10 || b == 13

def skipBlanks (s : Bytes) : Bytes := s.dropWhile isBlank

/-- The rest after a given beginning. -/
def after? (word : Bytes) (s : Bytes) : Option Bytes :=
  if word.isPrefixOf s then some (s.drop word.length) else none

/-! ## Strings -/

def hexDigit? (b : UInt8) : Option Nat :=
  let n := b.toNat
  if 48 ≤ n ∧ n ≤ 57 then some (n - 48)
  else if 65 ≤ n ∧ n ≤ 70 then some (n - 55)
  else if 97 ≤ n ∧ n ≤ 102 then some (n - 87)
  else none

def hexUnit? (a b c d : UInt8) : Option Nat := do
  let a ← hexDigit? a
  let b ← hexDigit? b
  let c ← hexDigit? c
  let d ← hexDigit? d
  pure (((a * 16 + b) * 16 + c) * 16 + d)

def escape? (b : UInt8) : Option UInt8 :=
  if b == 34 || b == 92 || b == 47 then some b
  else if b == 98 then some 8
  else if b == 102 then some 12
  else if b == 110 then some 10
  else if b == 114 then some 13
  else if b == 116 then some 9
  else none

/-- Reads up to the closing quote. -/
def stringParts (acc : List StringPart) : Bytes → Option (List StringPart × Bytes)
  | [] => none
  | 34 :: s => some (acc.reverse, s)
  | 92 :: 117 :: a :: b :: c :: d :: s =>
    match hexUnit? a b c d with
    | some u => stringParts (.unit u :: acc) s
    | none => none
  | 92 :: e :: s =>
    match escape? e with
    | some b => stringParts (.byte b :: acc) s
    | none => none
  | b :: s => if b < 32 || b == 92 then none else stringParts (.byte b :: acc) s

/-! ## Numbers -/

def isDigit (b : UInt8) : Bool := 48 ≤ b && b ≤ 57

/-- The digits in front, as numbers. -/
def digits (s : Bytes) : List Nat × Bytes :=
  ((s.takeWhile isDigit).map (·.toNat - 48), s.dropWhile isDigit)

/-- A point and at least one digit, or nothing. -/
def fraction? : Bytes → Option (Option (List Nat) × Bytes)
  | 46 :: s =>
    match digits s with
    | ([], _) => none
    | (ds, s) => some (some ds, s)
  | s => some (none, s)

/-- The sign and the digits of an exponent. -/
def exponentDigits? (negative : Bool) (s : Bytes) : Option (Option ExponentText × Bytes) :=
  match digits s with
  | ([], _) => none
  | (ds, s) => some (some ⟨negative, ds⟩, s)

def exponent? : Bytes → Option (Option ExponentText × Bytes)
  | b :: s =>
    if b == 101 || b == 69 then
      match s with
      | 43 :: s => exponentDigits? false s
      | 45 :: s => exponentDigits? true s
      | s => exponentDigits? false s
    else some (none, b :: s)
  | [] => some (none, [])

/-- A number without its sign; a zero in front stands alone. -/
def number? (negative : Bool) (s : Bytes) : Option (Raw × Bytes) := do
  let (whole, s) := digits s
  if whole.isEmpty || (whole.head? == some 0 && whole.length != 1) then none
  else
    let (fraction, s) ← fraction? s
    let (exponent, s) ← exponent? s
    pure (.number ⟨negative, whole, fraction, exponent⟩, s)

/-! ## Values -/

mutual
/-- A value from the front of a byte string. -/
def value : Nat → Bytes → Option (Raw × Bytes)
  | 0, _ => none
  | fuel + 1, s =>
    match skipBlanks s with
    | [] => none
    | 34 :: s => (stringParts [] s).map fun (ps, s) => (.string ps, s)
    | 91 :: s =>
      match skipBlanks s with
      | 93 :: s => some (.array [], s)
      | s => items fuel [] s
    | 123 :: s =>
      match skipBlanks s with
      | 125 :: s => some (.object [], s)
      | s => members fuel [] s
    | 45 :: s => number? true s
    | 110 :: s => (after? [117, 108, 108] s).map fun s => (.null, s)
    | 116 :: s => (after? [114, 117, 101] s).map fun s => (.bool true, s)
    | 102 :: s => (after? [97, 108, 115, 101] s).map fun s => (.bool false, s)
    | s => number? false s

/-- The rest of an array that has at least one more item. -/
def items : Nat → List Raw → Bytes → Option (Raw × Bytes)
  | 0, _, _ => none
  | fuel + 1, acc, s =>
    match value fuel s with
    | none => none
    | some (v, s) =>
      match skipBlanks s with
      | 44 :: s => items fuel (v :: acc) s
      | 93 :: s => some (.array (v :: acc).reverse, s)
      | _ => none

/-- The rest of an object that has at least one more member. -/
def members : Nat → List (List StringPart × Raw) → Bytes → Option (Raw × Bytes)
  | 0, _, _ => none
  | fuel + 1, acc, s =>
    match skipBlanks s with
    | 34 :: s =>
      match stringParts [] s with
      | none => none
      | some (k, s) =>
        match skipBlanks s with
        | 58 :: s =>
          match value fuel s with
          | none => none
          | some (v, s) =>
            match skipBlanks s with
            | 44 :: s => members fuel ((k, v) :: acc) s
            | 125 :: s => some (.object ((k, v) :: acc).reverse, s)
            | _ => none
        | _ => none
    | _ => none
end

/-- The document a whole byte string spells, blanks around it allowed. -/
def parse (s : Bytes) : Option Raw :=
  match value (2 * s.length + 2) s with
  | some (v, rest) => if (skipBlanks rest).isEmpty then some v else none
  | none => none

end Raw
end PeerLink.Json
