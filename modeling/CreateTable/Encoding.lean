/-!
# The encoding of a file

A file of unknown encoding is read as UTF-8 when its bytes are valid UTF-8. When they are not, a
byte order mark at its start names the encoding, and a file without one is read as Windows-1252.

## Main definitions

* `Utf16.ByteOrder`: which byte of a unit comes first.
* `Utf16.decode`, `Utf16.encode`: the text that a sequence of bytes spells, and the bytes that
  spell a text.
* `Windows1252.decode`: the text that a sequence of bytes spells, one character per byte.
* `decode?`: the text of a file, with its byte order mark still in place if it was valid UTF-8.
* `dropMark`: a text without the mark at its start.
* `fileText?`: the text of a file without its mark.
-/

namespace CreateTable.Encoding

/-! ### UTF-16

A UTF-16 text is a sequence of sixteen-bit units, written as two bytes each in one of two
orders. A character up to U+FFFF is one unit, every other character a high surrogate followed by
a low one; a surrogate outside such a pair is an error, and so is an odd byte at the end. -/

namespace Utf16

/-- The order of the two bytes of a unit. -/
inductive ByteOrder where
  /-- The low byte comes first. -/
  | little
  /-- The high byte comes first. -/
  | big
deriving DecidableEq, Repr

/-- The unit that two consecutive bytes spell. -/
def ByteOrder.join : ByteOrder → UInt8 → UInt8 → Nat
  | little, low, high => high.toNat * 256 + low.toNat
  | big, high, low => high.toNat * 256 + low.toNat

/-- The two bytes of a unit. -/
def ByteOrder.split : ByteOrder → Nat → List UInt8
  | little, unit => [UInt8.ofNat (unit % 256), UInt8.ofNat (unit / 256)]
  | big, unit => [UInt8.ofNat (unit / 256), UInt8.ofNat (unit % 256)]

/-- The units that a sequence of bytes spells; an odd byte at the end spells none. -/
def units? (order : ByteOrder) : List UInt8 → Option (List Nat)
  | [] => some []
  | [_] => none
  | a :: b :: rest => (units? order rest).map (order.join a b :: ·)

/-- The first half of a pair: `0xD800` to `0xDBFF`. -/
def isHighSurrogate (unit : Nat) : Bool :=
  0xD800 ≤ unit && unit < 0xDC00

/-- The second half of a pair: `0xDC00` to `0xDFFF`. -/
def isLowSurrogate (unit : Nat) : Bool :=
  0xDC00 ≤ unit && unit < 0xE000

/-- The text that a sequence of units spells; a surrogate outside a pair spells none. -/
def ofUnits? : List Nat → Option (List Char)
  | [] => some []
  | [unit] =>
    if isHighSurrogate unit || isLowSurrogate unit then none else some [Char.ofNat unit]
  | high :: low :: rest =>
    if isHighSurrogate high then
      if isLowSurrogate low then
        let code := 0x10000 + (high - 0xD800) * 0x400 + (low - 0xDC00)
        (ofUnits? rest).map (Char.ofNat code :: ·)
      else
        none
    else if isLowSurrogate high then
      none
    else
      (ofUnits? (low :: rest)).map (Char.ofNat high :: ·)

/-- The text that `bytes` spells in the given byte order, if they are well-formed UTF-16. -/
def decode (order : ByteOrder) (bytes : List UInt8) : Option (List Char) :=
  (units? order bytes).bind ofUnits?

/-- The one or two units of a character. -/
def unitsOf (c : Char) : List Nat :=
  if c.toNat < 0x10000 then [c.toNat]
  else [0xD800 + (c.toNat - 0x10000) / 0x400, 0xDC00 + (c.toNat - 0x10000) % 0x400]

/-- The bytes that spell a text in the given byte order. -/
def encode (order : ByteOrder) (cs : List Char) : List UInt8 :=
  (cs.flatMap unitsOf).flatMap order.split

end Utf16

/-! ### Windows-1252

The single-byte encoding of western Windows versions. A byte below `0x80` or from `0xA0` on
spells the character with the same code point; the 32 bytes between have a table of their own,
in which the five unassigned bytes keep their code points as well. So every sequence of bytes
spells a text, with one character per byte. -/

namespace Windows1252

/-- The code points of the bytes `0x80` to `0x9F`, in order. -/
def upperControls : List Nat :=
  [0x20AC, 0x81, 0x201A, 0x192, 0x201E, 0x2026, 0x2020, 0x2021,
    0x2C6, 0x2030, 0x160, 0x2039, 0x152, 0x8D, 0x17D, 0x8F,
    0x90, 0x2018, 0x2019, 0x201C, 0x201D, 0x2022, 0x2013, 0x2014,
    0x2DC, 0x2122, 0x161, 0x203A, 0x153, 0x9D, 0x17E, 0x178]

/-- The character of one byte. -/
def character (byte : UInt8) : Char :=
  if 0x80 ≤ byte.toNat && byte.toNat < 0xA0 then
    Char.ofNat (upperControls.getD (byte.toNat - 0x80) byte.toNat)
  else
    Char.ofNat byte.toNat

/-- The text that `bytes` spells, one character per byte. -/
def decode (bytes : List UInt8) : List Char :=
  bytes.map character

end Windows1252

/-! ### Detection -/

/-- The text that the bytes of a file spell. Valid UTF-8 is read as such. Bytes that are not
valid UTF-8 spell no text when they start with the mark of UTF-8; after one of the two marks of
UTF-16 they are read in that byte order, and otherwise as Windows-1252, which never fails. -/
def decode? (bytes : ByteArray) : Option String :=
  match String.fromUTF8? bytes with
  | some text => some text
  | none =>
    match bytes.data.toList with
    | 0xEF :: 0xBB :: 0xBF :: _ => none
    | 0xFF :: 0xFE :: rest => (Utf16.decode .little rest).map String.ofList
    | 0xFE :: 0xFF :: rest => (Utf16.decode .big rest).map String.ofList
    | unmarked => some (String.ofList (Windows1252.decode unmarked))

/-- The byte order mark U+FEFF. -/
def byteOrderMark : Char := '\uFEFF'

/-- The text without the byte order mark at its start, if there is one. A second mark stays:
there it is a character like any other. -/
def dropMark (text : String) : String :=
  match text.toList with
  | c :: cs => if c = byteOrderMark then String.ofList cs else text
  | [] => text

/-- The text of a file, without its byte order mark. -/
def fileText? (bytes : ByteArray) : Option String :=
  (decode? bytes).map dropMark

end CreateTable.Encoding
