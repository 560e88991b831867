import PeerLink.Toml.Scalar

/-! # TOML documents

* `value?`: a value; arrays and tables in braces nest to a bounded depth.
* `parse?`: the tables of a document.
-/

namespace PeerLink.Toml
set_option autoImplicit false

/-! ## Keys -/

/-- Nesting and keys stay below this depth. -/
def maxDepth : Nat := 80

def isBareChar (c : Char) : Bool := c.isAlphanum || c == '-' || c == '_'

def simpleKey? (cs : List Char) : Option (String × List Char) :=
  match cs with
  | '"' :: _ | '\'' :: _ => lineString? cs
  | cs =>
    let word := cs.takeWhile isBareChar
    if word.isEmpty then none else some (String.ofList word, cs.drop word.length)

/-- The parts of a dotted key, with blanks around each, at most so many. -/
def keyParts? : Nat → List Char → Option (List String × List Char)
  | 0, _ => none
  | count + 1, cs => do
    let (k, cs) ← simpleKey? (skipBlanks cs)
    match skipBlanks cs with
    | '.' :: cs =>
      let (ks, cs) ← keyParts? count cs
      pure (k :: ks, cs)
    | cs => pure ([k], cs)

/-- A key as the path to it and its last part. -/
structure Key where
  path : List String
  last : String

def key? (cs : List Char) : Option (Key × List Char) := do
  let (parts, cs) ← keyParts? (maxDepth - 1) cs
  let last ← parts.getLast?
  pure (⟨parts.dropLast, last⟩, cs)

/-! ## Values -/

mutual
/-- A value at a given depth. -/
def value? : Nat → Nat → List Char → Option (Item × List Char)
  | 0, _, _ => none
  | fuel + 1, depth, cs =>
    match cs with
    | '"' :: _ | '\'' :: _ => (string? cs).map fun (s, cs) => (.string s, cs)
    | '[' :: cs => if depth + 1 < maxDepth then items? fuel (depth + 1) [] cs else none
    | '\x7b' :: cs => if depth + 1 < maxDepth then braces? fuel (depth + 1) cs else none
    | 't' :: _ => (word? ['t', 'r', 'u', 'e'] cs).map (.other, ·)
    | 'f' :: _ => (word? ['f', 'a', 'l', 's', 'e'] cs).map (.other, ·)
    | cs => timeOrNumber? cs

/-- The rest of an array, in front of a value or of its end; a comma may stand before the end. -/
def items? : Nat → Nat → List Item → List Char → Option (Item × List Char)
  | 0, _, _, _ => none
  | fuel + 1, depth, acc, cs =>
    match skipLines cs with
    | ']' :: cs => some (.array acc.reverse, cs)
    | cs =>
      match value? fuel depth cs with
      | none => none
      | some (i, cs) =>
        match skipLines cs with
        | ',' :: cs => items? fuel depth (i :: acc) cs
        | ']' :: cs => some (.array (i :: acc).reverse, cs)
        | _ => none

def braces? : Nat → Nat → List Char → Option (Item × List Char)
  | 0, _, _ => none
  | fuel + 1, depth, cs =>
    match skipBlanks cs with
    | '\x7d' :: cs => some (.table .braces [], cs)
    | cs => members? fuel depth [] cs

/-- The rest of a table in braces, in front of a key. -/
def members? : Nat → Nat → Members → List Char → Option (Item × List Char)
  | 0, _, _, _ => none
  | fuel + 1, depth, ms, cs =>
    match key? cs with
    | none => none
    | some (k, cs) =>
      match mark? '=' cs with
      | none => none
      | some cs =>
        match value? fuel depth (skipBlanks cs) with
        | none => none
        | some (i, cs) =>
          match ms.define k.path k.last i .braces with
          | none => none
          | some ms =>
            match skipBlanks cs with
            | ',' :: cs => members? fuel depth ms cs
            | '\x7d' :: cs => some (.table .braces ms, cs)
            | _ => none
end

/-! ## Lines -/

/-- What has been read of a document, and the path of the table that the last header began. -/
structure Reading where
  root : Members := []
  current : List String := []

/-- A line that gives a value to a key. -/
def assignment? (fuel : Nat) (r : Reading) (cs : List Char) : Option (Reading × List Char) := do
  let (k, cs) ← key? cs
  let cs ← mark? '=' cs
  let (i, cs) ← value? fuel 0 (skipBlanks cs)
  let cs ← lineEnd? cs
  let root ← r.root.defineIn r.current k.path k.last i
  pure ({ r with root }, cs)

/-- The line of a header, after its opening brackets. -/
def header? (close : List Char) (enter : List String → String → Members → Option Members)
    (r : Reading) (cs : List Char) : Option (Reading × List Char) := do
  let (k, cs) ← key? cs
  let cs ← word? close cs
  let cs ← lineEnd? cs
  let root ← enter k.path k.last r.root
  pure (⟨root, k.path ++ [k.last]⟩, cs)

/-- One line that is not blank. -/
def line? (fuel : Nat) (r : Reading) : List Char → Option (Reading × List Char)
  | '[' :: '[' :: cs => header? [']', ']'] Members.openElement r cs
  | '[' :: cs => header? [']'] Members.openTable r cs
  | cs => assignment? fuel r cs

/-- Reads all lines, at most `fuel` of them; no value has more than two steps for each character. -/
def lines? : Nat → Reading → List Char → Option Members
  | 0, _, _ => none
  | fuel + 1, r, cs =>
    match skipLines cs with
    | [] => some r.root
    | cs =>
      match line? (2 * fuel + 2) r cs with
      | none => none
      | some (r, cs) => lines? fuel r cs

def parse? (text : String) : Option Members :=
  let cs := text.toList
  let cs := if cs.head? = some '\uFEFF' then cs.drop 1 else cs
  lines? (cs.length + 1) {} cs

end PeerLink.Toml
