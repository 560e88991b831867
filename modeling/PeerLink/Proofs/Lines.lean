import PeerLink.Line
import Mathlib.Tactic.Common

/-! # Messages on lines

* `Json.Printable`: the text of a value has no control characters in it, whatever its strings say.
* `Message.newline_not_mem`: so a message is one line, and it has no blanks at its ends.
* `LineDecoder.next_line`: a decoder that holds the line of a message brings this message and keeps
  nothing.
-/

namespace PeerLink
set_option autoImplicit false

/-! ## Text without control characters -/

namespace Json

def Printable (cs : List Char) : Prop := ∀ c ∈ cs, 32 ≤ c.toNat

-- The search for an instance may find one that goes through all characters there are.
instance (cs : List Char) : Decidable (Printable cs) :=
  List.decidableBAll (fun c : Char => 32 ≤ c.toNat) cs

theorem Printable.append {cs cs' : List Char} (h : Printable cs) (h' : Printable cs') :
    Printable (cs ++ cs') := by
  intro c hc
  rcases List.mem_append.mp hc with hc | hc
  · exact h c hc
  · exact h' c hc

theorem Printable.cons {c : Char} {cs : List Char} (hc : 32 ≤ c.toNat) (h : Printable cs) :
    Printable (c :: cs) := by
  intro c' hc'
  rcases List.mem_cons.mp hc' with rfl | hc'
  · exact hc
  · exact h c' hc'

theorem Printable.sublist {cs cs' : List Char} (h : Printable cs) (hs : cs'.Sublist cs) :
    Printable cs' := fun c hc => h c (hs.subset hc)

theorem printable_nil : Printable [] := by decide

theorem digitChar_ge : ∀ n < 16, 32 ≤ (Nat.digitChar n).toNat := by decide

theorem printable_escapeChar (c : Char) : Printable (escapeChar c) := by
  unfold escapeChar
  split_ifs with h1 h2 h3 h4 h5 h6 h7 h8
  · decide
  · decide
  · decide
  · decide
  · decide
  · decide
  · decide
  · have hprefix : Printable ['\\', 'u', '0', '0'] := by decide
    have hhigh := digitChar_ge (c.toNat / 16) (by omega)
    have hlow := digitChar_ge (c.toNat % 16) (by omega)
    exact hprefix.append (.cons hhigh (.cons hlow printable_nil))
  · intro c' hc'
    rw [List.mem_singleton.mp hc']
    exact Nat.not_lt.mp h8

theorem printable_quote (s : String) : Printable (quote s) := by
  refine .append (.cons (by decide) fun c hc => ?_) (.cons (by decide) printable_nil)
  obtain ⟨c0, -, hc0⟩ := List.mem_flatMap.mp hc
  exact printable_escapeChar c0 c hc0

end Json

namespace Shortest
open Json

theorem printable_digitChars (n : Nat) : Printable (digitChars n) := by
  intro c hc
  have hdigit := Nat.isDigit_of_mem_toDigits (by decide) (by decide) hc
  simp only [Char.isDigit, Bool.and_eq_true, decide_eq_true_eq] at hdigit
  have h48 : 48 ≤ c.toNat := hdigit.1
  omega

theorem printable_replicate (n : Nat) {c : Char} (hc : 32 ≤ c.toNat) :
    Printable (List.replicate n c) := by
  intro c' hc'
  rw [List.eq_of_mem_replicate hc']
  exact hc

theorem printable_trimZeros {cs : List Char} (h : Printable cs) : Printable (trimZeros cs) := by
  intro c hc
  rw [trimZeros, List.mem_reverse] at hc
  exact h c (List.mem_reverse.mp ((List.dropWhile_sublist _).subset hc))

theorem printable_plain {ds : List Char} (h : Printable ds) (point : Int) :
    Printable (plain ds point) := by
  have hzeros : ∀ n, Printable (List.replicate n '0') := fun n => printable_replicate n (by decide)
  unfold plain
  split_ifs
  · exact .cons (by decide) (.cons (by decide) ((hzeros _).append h))
  · exact (h.append (hzeros _)).append (by decide)
  · exact (h.sublist (List.take_sublist _ _)).append
      (.cons (by decide) (h.sublist (List.drop_sublist _ _)))

theorem printable_scientific {ds : List Char} (h : Printable ds) (e : Int) :
    Printable (scientific ds e) := by
  refine .append ?_ (.cons (by decide) (.cons (by split <;> decide) (printable_digitChars _)))
  match ds with
  | [] => exact printable_nil
  | [_] => exact h
  | d :: _ :: _ =>
    exact .cons (h d List.mem_cons_self)
      (.cons (by decide) fun c hc => h c (List.mem_cons_of_mem d hc))

end Shortest

namespace Json

theorem printable_float (x : Binary64) : Printable x.text := by
  have hsign : Printable (if x.isNegative then ['-'] else []) := by split <;> decide
  unfold Binary64.text
  dsimp only
  split
  · exact hsign.append (by decide)
  · refine hsign.append ?_
    unfold Shortest.Decimal.text
    dsimp only
    have hdigits := Shortest.printable_trimZeros (Shortest.printable_digitChars
      (Shortest.digits x).digits)
    split
    · exact Shortest.printable_plain hdigits _
    · exact Shortest.printable_scientific hdigits _

namespace Value

mutual
theorem printable_chars : ∀ v : Value, Printable v.chars
  | .null | .bool true | .bool false => by rw [chars]; decide
  | .num (.nat n) => Shortest.printable_digitChars n
  | .num (.neg n) => .cons (by decide) (Shortest.printable_digitChars n)
  | .num (.float x) => printable_float x
  | .str s => printable_quote s
  | .arr items =>
    .append (.cons (by decide) (printable_itemChars items)) (.cons (by decide) printable_nil)
  | .obj ms =>
    .append (.cons (by decide) (printable_memberChars ms)) (.cons (by decide) printable_nil)

theorem printable_itemChars : ∀ vs : List Value, Printable (itemChars vs)
  | [] => printable_nil
  | [v] => printable_chars v
  | v :: w :: vs =>
    (printable_chars v).append (.cons (by decide) (printable_itemChars (w :: vs)))

theorem printable_memberChars : ∀ ms : List (String × Value), Printable (memberChars ms)
  | [] => printable_nil
  | [(k, v)] => (printable_quote k).append (.cons (by decide) (printable_chars v))
  | (k, v) :: m :: ms =>
    .append ((printable_quote k).append (.cons (by decide) (printable_chars v)))
      (.cons (by decide) (printable_memberChars (m :: ms)))
end

theorem bytes_eq_flatMap (v : Value) : v.bytes = v.chars.flatMap String.utf8EncodeChar := by
  rw [bytes, Bytes.ofString, text, String.toUTF8_eq_toByteArray, String.toByteArray_ofList,
    List.utf8Encode, List.data_toByteArray]

end Value

/-- Bytes of characters that take several are all above those of characters that take one. -/
theorem utf8EncodeChar_ge {c : Char} (h : 32 ≤ c.toNat) :
    ∀ b ∈ String.utf8EncodeChar c, 32 ≤ b.toNat := by
  intro b hb
  have hc : 32 ≤ c.val.toNat := h
  unfold String.utf8EncodeChar at hb
  dsimp only at hb
  split_ifs at hb <;> simp only [List.mem_cons, List.not_mem_nil, or_false] at hb
  · rw [hb, UInt8.toNat_ofNat']
    omega
  · rcases hb with rfl | rfl <;> rw [UInt8.toNat_ofNat'] <;> omega
  · rcases hb with rfl | rfl | rfl <;> rw [UInt8.toNat_ofNat'] <;> omega
  · rcases hb with rfl | rfl | rfl | rfl <;> rw [UInt8.toNat_ofNat'] <;> omega

namespace Value

theorem bytes_ge (v : Value) : ∀ b ∈ v.bytes, 32 ≤ b.toNat := by
  intro b hb
  rw [bytes_eq_flatMap] at hb
  obtain ⟨c, hc, hb⟩ := List.mem_flatMap.mp hb
  exact utf8EncodeChar_ge (v.printable_chars c hc) b hb

/-- The text of an object stands between braces. -/
theorem bytes_obj (ms : List (String × Value)) :
    ∃ inner, (Value.obj ms).bytes = 0x7b :: inner ++ [0x7d] := by
  refine ⟨(memberChars ms).flatMap String.utf8EncodeChar, ?_⟩
  rw [bytes_eq_flatMap, chars, List.cons_append, List.flatMap_cons, List.flatMap_append]
  rfl

end Value
end Json

/-! ## Lines -/

namespace Bytes

theorem cutLine?_append {line : Bytes} (h : newline ∉ line) (rest : Bytes) :
    cutLine? (line ++ newline :: rest) = some (line, rest) := by
  have hall : ∀ b ∈ line, (b != newline) = true := by
    intro b hb
    exact bne_iff_ne.mpr (ne_of_mem_of_not_mem hb h)
  rw [cutLine?, List.dropWhile_append_of_pos hall, List.takeWhile_append_of_pos hall]
  simp

/-- Without blanks at its ends nothing is cut off. -/
theorem trim_of_ends {a z : UInt8} {inner : Bytes} (ha : isBlankByte a = false)
    (hz : isBlankByte z = false) : trim (a :: inner ++ [z]) = a :: inner ++ [z] := by
  have hfirst : (a :: inner ++ [z]).dropWhile isBlankByte = a :: inner ++ [z] := by
    simp [ha]
  rw [trim, hfirst]
  simp [hz]

end Bytes

namespace Message

def document (m : Message) : Bytes := (Envelope.ofMessage m).toJson.bytes

theorem line_eq (m : Message) : m.line = m.document ++ [newline] := rfl

theorem newline_not_mem (m : Message) : newline ∉ m.document := by
  intro h
  have := Json.Value.bytes_ge _ _ h
  simp [newline] at this

theorem document_braces (m : Message) : ∃ inner, m.document = 0x7b :: inner ++ [0x7d] :=
  Json.Value.bytes_obj _

theorem trim_line (m : Message) : m.line.trim = m.document := by
  obtain ⟨inner, h⟩ := m.document_braces
  have hfirst : m.line.dropWhile isBlankByte = m.line := by
    rw [line_eq, h]
    rfl
  have hlast : m.line.reverse.dropWhile isBlankByte = m.document.reverse := by
    rw [line_eq, h]
    simp [newline, isBlankByte]
  rw [Bytes.trim, hfirst, hlast, List.reverse_reverse]

theorem trim_document (m : Message) : m.document.trim = m.document := by
  obtain ⟨inner, h⟩ := m.document_braces
  rw [h]
  exact Bytes.trim_of_ends rfl rfl

end Message

namespace LineDecoder

theorem readLine?_document {maxLine : Nat} {m : Message} (h : m.document.length ≤ maxLine) :
    readLine? maxLine m.document = some (Inbound.ofLine m.document) := by
  obtain ⟨inner, hbraces⟩ := m.document_braces
  have hne : m.document.isEmpty = false := by rw [hbraces]; rfl
  simp only [readLine?, m.trim_document, hne, Nat.not_lt.mpr h, Bool.false_eq_true, if_false]

theorem next_line {d : LineDecoder} {m : Message} (h : m.document.length ≤ d.maxLine)
    (hbuf : d.buffer = m.line) :
    d.next = ((Inbound.ofLine m.document).map some, { d with buffer := [] }) := by
  rw [next, hbuf, nextFrom, m.line_eq, Bytes.cutLine?_append m.newline_not_mem]
  simp only [readLine?_document h]

theorem next_empty {d : LineDecoder} (hbuf : d.buffer = []) : d.next = (.ok none, d) := by
  obtain ⟨maxLine, buffer⟩ := d
  subst hbuf
  rfl

end LineDecoder
end PeerLink

