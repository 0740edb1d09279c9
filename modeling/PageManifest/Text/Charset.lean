import PageManifest.Text.Utf8

/-!
# Character sets

Reading bytes as text in the character set that a label names. No bytes are refused: what
is no character becomes a replacement character. A byte order mark in front decides over
the label, and is no part of the text.
-/

namespace PageManifest.Text

/-- Which of the two bytes of a unit comes first. -/
inductive ByteOrder where
  | littleEndian
  | bigEndian
deriving DecidableEq, Repr

/-- The character sets that can be read. -/
inductive Charset where
  | utf8
  | utf16 (order : ByteOrder)
  | western
deriving DecidableEq, Repr

namespace Charset

/-! ## Labels -/

/-- The labels of each character set in small letters. -/
def labels : Charset → List String
  | .utf8 =>
    ["utf-8", "utf8", "unicode-1-1-utf-8", "unicode11utf8", "unicode20utf8", "x-unicode20utf8"]
  | .utf16 .littleEndian =>
    ["utf-16", "utf-16le", "csunicode", "iso-10646-ucs-2", "ucs-2", "unicode", "unicodefeff"]
  | .utf16 .bigEndian => ["utf-16be", "unicodefffe"]
  | .western =>
    ["windows-1252", "iso-8859-1", "latin1", "ascii", "us-ascii", "l1", "cp1252", "x-cp1252",
      "iso8859-1", "iso88591", "iso_8859-1", "iso_8859-1:1987", "iso-ir-100", "csisolatin1",
      "cp819", "ibm819", "ansi_x3.4-1968"]

/-- Every character set. -/
def all : List Charset := [.utf8, .utf16 .littleEndian, .utf16 .bigEndian, .western]

/-- The character set that a label names; the size of its letters does not count. -/
def ofLabel? (label : String) : Option Charset :=
  let name := String.ofList (label.toList.map Char.toLower)
  all.find? fun charset => charset.labels.contains name

/-! ## Units of two bytes -/

/-- The units that bytes make, and whether a byte is left over. -/
def units (order : ByteOrder) : List UInt8 → List Nat × Bool
  | first :: second :: rest =>
    let unit := match order with
      | .littleEndian => first.toNat + 256 * second.toNat
      | .bigEndian => 256 * first.toNat + second.toNat
    let (found, isOdd) := units order rest
    (unit :: found, isOdd)
  | [_] => ([], true)
  | [] => ([], false)

/-- Whether a unit is the first of two that make one character. -/
def isLead (unit : Nat) : Bool := 0xD800 ≤ unit && unit < 0xDC00

/-- Whether a unit is the second of two that make one character. -/
def isTrail (unit : Nat) : Bool := 0xDC00 ≤ unit && unit < 0xE000

/-- The characters that units make. Halves of pairs and a byte left over are no
characters; a byte behind a half belongs to it. -/
def unitChars (isOdd : Bool) : List Nat → List Char
  | [] => if isOdd then [Utf8.replacement] else []
  | [unit] =>
    if isLead unit then [Utf8.replacement]
    else
      (if isTrail unit then Utf8.replacement else Char.ofNat unit) ::
        (if isOdd then [Utf8.replacement] else [])
  | unit :: next :: rest =>
    if isLead unit then
      if isTrail next then
        Char.ofNat (0x10000 + (unit - 0xD800) * 0x400 + (next - 0xDC00)) :: unitChars isOdd rest
      else Utf8.replacement :: unitChars isOdd (next :: rest)
    else
      (if isTrail unit then Utf8.replacement else Char.ofNat unit) :: unitChars isOdd (next :: rest)

/-! ## Western bytes -/

/-- The characters of the bytes from 128 to 159. -/
def westernSigns : List Nat :=
  [0x20AC, 0x81, 0x201A, 0x192, 0x201E, 0x2026, 0x2020, 0x2021, 0x2C6, 0x2030, 0x160, 0x2039,
    0x152, 0x8D, 0x17D, 0x8F, 0x90, 0x2018, 0x2019, 0x201C, 0x201D, 0x2022, 0x2013, 0x2014,
    0x2DC, 0x2122, 0x161, 0x203A, 0x153, 0x9D, 0x17E, 0x178]

/-- The character of a byte. -/
def westernChar (byte : UInt8) : Char :=
  let n := byte.toNat
  Char.ofNat (if n < 0x80 then n else (westernSigns[n - 0x80]?).getD n)

/-! ## Reading -/

/-- Reads bytes without regard to a mark in front. -/
def read (charset : Charset) (bytes : List UInt8) : List Char :=
  match charset with
  | .utf8 => Utf8.decodeChars bytes
  | .utf16 order => let (found, isOdd) := units order bytes; unitChars isOdd found
  | .western => bytes.map westernChar

/-- The character set that a mark in front names, and the bytes behind the mark. -/
def marked? : List UInt8 → Option (Charset × List UInt8)
  | 0xEF :: 0xBB :: 0xBF :: rest => some (.utf8, rest)
  | 0xFF :: 0xFE :: rest => some (.utf16 .littleEndian, rest)
  | 0xFE :: 0xFF :: rest => some (.utf16 .bigEndian, rest)
  | _ => none

/-- Reads bytes in a character set, or in that of their mark. -/
def decode (charset : Charset) (bytes : ByteArray) : String :=
  let bytes := bytes.data.toList
  let (charset, bytes) := (marked? bytes).getD (charset, bytes)
  String.ofList (charset.read bytes)

end Charset

end PageManifest.Text
