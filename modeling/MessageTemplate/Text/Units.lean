/-
Texts as bytes and as UTF-16 units: their checksum, and the places where they can be cut.

`checksum` is the 32-bit cyclic redundancy check of the UTF-8 bytes of a text, as eight digits.  The
check is the remainder of a division of bit strings.  Bits enter from the low end, so the
`divisor` is written with its bits reversed, and the register starts and ends complemented.

Carets count characters.  A host that counts UTF-16 units gives a caret as an offset in units; its
caret is `caretOfUnits`, the largest number of characters that fit into the offset, so an offset
inside a pair stands before the pair, and one past the end stands at the end.

Where the text is kept as bytes, the caret stands before the byte at which its character starts,
`byteOffset`.  A text that is kept as UTF-8 can be cut in front of a byte if a character starts
there or the text ends there; anywhere else the halves would be no texts, and `splitAtByte` gives
nothing.  The byte of a caret is always such a place (`byteOffset_eq` with `splitAtByte_append`),
so who keeps texts as bytes may count carets in characters all the same, and never has a cut
refused.
-/

set_option autoImplicit false

namespace MessageTemplate.Text

/-! ## The checksum -/

/-- The divisor of the check without its leading bit, its bits reversed so that the lowest power
comes last, as `shiftBit` takes it off the register. -/
def divisor : UInt32 := 0xEDB88320

/-- One bit leaves the register `r` at its low end; a bit that is set takes the `divisor` off the
rest. -/
def shiftBit (r : UInt32) : UInt32 :=
  if r &&& 1 = 1 then (r >>> 1) ^^^ divisor else r >>> 1

/-- One byte enters the register `r` at its low end, and its eight bits are divided out by
`shiftBit`. -/
def shiftByte (r : UInt32) (b : UInt8) : UInt32 :=
  (List.range 8).foldl (fun r _ => shiftBit r) (r ^^^ b.toUInt32)

/-- The check of some bytes: the register starts with all bits set, takes every byte by `shiftByte`,
and is complemented at the end. -/
def crc32 (bytes : List UInt8) : UInt32 :=
  bytes.foldl shiftByte 0xFFFFFFFF ^^^ 0xFFFFFFFF

/-- The bytes of a text in UTF-8, character by character; `crc32` is taken of these. -/
def utf8 (s : String) : List UInt8 :=
  s.toList.flatMap String.utf8EncodeChar

/-- The check `crc32` of a text, as eight digits to the base sixteen with zeros in front.  This is
the fingerprint of a text node, `Fingerprint.of`. -/
def checksum (s : String) : String :=
  let digits := Nat.toDigits 16 (crc32 (utf8 s)).toNat
  String.ofList (List.replicate (8 - digits.length) '0' ++ digits)

/-- The empty text has `checksum` zero. -/
example : checksum "" = "00000000" := by decide +kernel

/-- The text with which implementations of the CRC are usually tested; its `checksum` is the
published one. -/
example : checksum "123456789" = "cbf43926" := by decide +kernel

/-! ## UTF-16 units -/

/-- The units of one character: its code point, or a pair of surrogates beyond the basic plane.
`caretOfUnits` needs no more of them than their number. -/
def utf16Char (c : Char) : List Nat :=
  if c.toNat < 0x10000 then [c.toNat]
  else [0xD800 + (c.toNat - 0x10000) / 0x400, 0xDC00 + (c.toNat - 0x10000) % 0x400]

/-- The units of some characters, those of each as `utf16Char` gives them, one after the other. -/
def utf16 (cs : List Char) : List Nat :=
  cs.flatMap utf16Char

/-- How many characters from the front fit into `n` units.  A character counts only if all its units
fit, so an offset between the two halves of a pair gives the caret in front of the pair. -/
def caretOfUnits : List Char → Nat → Nat
  | [], _ => 0
  | c :: rest, n =>
    let size := (utf16Char c).length
    if size ≤ n then caretOfUnits rest (n - size) + 1 else 0

/-! ## Bytes in front of a caret -/

/-- The byte offset at which the character after a caret starts; a caret beyond the end stands after
the last byte.  The recursion takes the characters in front of the caret one by one, as
`caretOfUnits` does. -/
def byteOffset : List Char → Nat → Nat
  | [], _ => 0
  | _, 0 => 0
  | c :: rest, caret + 1 => c.utf8Size + byteOffset rest caret

/-- For `caretOfUnits` an offset between the two halves of a pair stands before the pair. -/
example : (List.range 6).map (caretOfUnits "a😀b".toList) = [0, 1, 1, 2, 3, 3] := by decide

/-- The same carets as bytes, by `byteOffset`. -/
example : (List.range 5).map (byteOffset "a😀b".toList) = [0, 1, 5, 6, 6] := by decide

/-! ## Cutting at a byte -/

/-- What stands in front of a byte and what from that byte on, if the text can be cut there: the
library's `String.Pos.Raw.IsValid` says so, and otherwise the result is `none`. -/
def splitAtByte (s : String) (offset : Nat) : Option (String × String) :=
  if h : String.Pos.Raw.IsValid s ⟨offset⟩ then
    some ((s.sliceTo (s.pos ⟨offset⟩ h)).copy, (s.sliceFrom (s.pos ⟨offset⟩ h)).copy)
  else none

/-- The text with a literal put in front of a byte, where `splitAtByte` finds that the text can be
cut. -/
def insertAtByte (s : String) (offset : Nat) (literal : String) : Option String :=
  (splitAtByte s offset).map fun (before, after) => before ++ literal ++ after

/-- The text with a literal put in at a caret, and the caret behind the literal.  The cut is made at
`byteOffset` of the caret; the characters in front of it are counted in the new text, which is cut
at the same byte for this. -/
def insertAtCaret (s : String) (caret : Nat) (literal : String) : Option (String × Nat) := do
  let offset := byteOffset s.toList caret
  let text ← insertAtByte s offset literal
  let (before, _) ← splitAtByte text offset
  some (text, before.length + literal.length)

/-! ## Where a text can be cut -/

/-- A text that was put together from two is cut into these two again, at the byte where the second
one starts.  The halves are found by `String.Pos.splits`, as positions have no other way to be told
apart. -/
theorem splitAtByte_append (before after : String) :
    splitAtByte (before ++ after) before.utf8ByteSize = some (before, after) := by
  have hvalid : String.Pos.Raw.IsValid (before ++ after) ⟨before.utf8ByteSize⟩ :=
    String.Pos.Raw.isValid_iff_exists_append.mpr ⟨before, after, rfl, rfl⟩
  have hsplits : ((before ++ after).pos ⟨before.utf8ByteSize⟩ hvalid).Splits before after :=
    ⟨rfl, String.offset_pos⟩
  obtain ⟨hbefore, hafter⟩ := (String.Pos.splits _).eq hsplits
  rw [splitAtByte, dif_pos hvalid, hbefore, hafter]

/-- The byte of a caret is the number of bytes of the characters in front of it.  With
`splitAtByte_append` this says that `byteOffset` always points to a place where the text can be
cut. -/
theorem byteOffset_eq (cs : List Char) : ∀ caret : Nat,
    byteOffset cs caret = (String.ofList (cs.take caret)).utf8ByteSize := by
  induction cs with
  | nil =>
    intro caret
    rw [List.take_nil]
    rfl
  | cons c rest ih =>
    intro caret
    cases caret with
    | zero => rfl
    | succ caret =>
      rw [byteOffset, ih, List.take_succ_cons, String.ofList_cons, String.utf8ByteSize_append,
        String.utf8ByteSize_singleton]

end MessageTemplate.Text
