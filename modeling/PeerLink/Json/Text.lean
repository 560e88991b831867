import PeerLink.Json.Value
import PeerLink.Bytes

/-! # JSON text

* `Value.text`: a value without blanks, the members of an object as they stand.
* `Value.bytes`: that text in UTF-8.
-/

namespace PeerLink.Json
set_option autoImplicit false

/-! ## Strings -/

def escapeChar (c : Char) : List Char :=
  if c = '"' then ['\\', '"']
  else if c = '\\' then ['\\', '\\']
  else if c = '\x08' then ['\\', 'b']
  else if c = '\x0c' then ['\\', 'f']
  else if c = '\n' then ['\\', 'n']
  else if c = '\x0d' then ['\\', 'r']
  else if c = '\t' then ['\\', 't']
  else if c.toNat < 32 then
    ['\\', 'u', '0', '0', Nat.digitChar (c.toNat / 16), Nat.digitChar (c.toNat % 16)]
  else [c]

def quote (s : String) : List Char := '"' :: s.toList.flatMap escapeChar ++ ['"']

/-! ## Numbers -/

def Number.text : Number → List Char
  | .nat n => Shortest.digitChars n
  | .neg n => '-' :: Shortest.digitChars n
  | .float x => x.text

/-! ## Values -/

namespace Value

mutual
def chars : Value → List Char
  | .null => ['n', 'u', 'l', 'l']
  | .bool true => ['t', 'r', 'u', 'e']
  | .bool false => ['f', 'a', 'l', 's', 'e']
  | .num n => n.text
  | .str s => quote s
  | .arr items => '[' :: itemChars items ++ [']']
  | .obj ms => '\x7b' :: memberChars ms ++ ['\x7d']

def itemChars : List Value → List Char
  | [] => []
  | [v] => chars v
  | v :: vs => chars v ++ ',' :: itemChars vs

def memberChars : List (String × Value) → List Char
  | [] => []
  | [(k, v)] => quote k ++ ':' :: chars v
  | (k, v) :: ms => quote k ++ ':' :: chars v ++ ',' :: memberChars ms
end

def text (v : Value) : String := String.ofList v.chars

def bytes (v : Value) : Bytes := Bytes.ofString v.text

end Value
end PeerLink.Json
