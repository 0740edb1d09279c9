import PageManifest.Text.Hex
import PageManifest.Text.Utf8

/-!
# Percent-encoding

A character that may not stand in a part of an address is written as the bytes of its
UTF-8 form, each by a percent sign and two hexadecimal digits.
-/

namespace PageManifest.Url.Percent

/-- A hexadecimal digit, letters being capital. -/
def digit (n : Nat) : Char := Char.ofNat (if n < 10 then 0x30 + n else 0x37 + n)

/-- A byte in encoded form. -/
def encodeByte (byte : UInt8) : List Char :=
  ['%', digit (byte.toNat / 16), digit (byte.toNat % 16)]

/-- Encodes the characters of a text that satisfy a test, and those outside ASCII. -/
def encode (mustEncode : Char → Bool) (cs : List Char) : List Char :=
  cs.flatMap fun c =>
    if mustEncode c || 0x7F < c.toNat then
      (Text.Utf8.encode (String.singleton c)).data.toList.flatMap encodeByte
    else [c]

/-- The bytes that a text stands for. A percent sign without two digits stands for
itself. -/
def decode : List Char → List UInt8
  | '%' :: a :: b :: rest =>
    match Text.hexValue? a, Text.hexValue? b with
    | some high, some low => UInt8.ofNat (high * 16 + low) :: decode rest
    | _, _ => '%'.toUInt8 :: decode (a :: b :: rest)
  | c :: rest => (Text.Utf8.encode (String.singleton c)).data.toList ++ decode rest
  | [] => []

/-- Whether the bytes of a text are well-formed. -/
def isReadable (text : String) : Bool :=
  (Text.Utf8.decode? (ByteArray.mk (decode text.toList).toArray)).isSome

/-! ## The characters that each part encodes -/

/-- Control characters. -/
def isControl (c : Char) : Bool := c.toNat < 0x20 || c.toNat == 0x7F

/-- The characters that a fragment encodes. -/
def inFragment (c : Char) : Bool := isControl c || " \"<>\x60".toList.contains c

/-- The characters that a path encodes. -/
def inPath (c : Char) : Bool := inFragment c || "#?\x7b\x7d".toList.contains c

/-- The characters that names and passwords encode. -/
def inCredentials (c : Char) : Bool := inPath c || "/:;=@[\\]^|".toList.contains c

/-- The characters that a query encodes; an apostrophe counts for the common schemes. -/
def inQuery (common : Bool) (c : Char) : Bool :=
  isControl c || " \"#<>".toList.contains c || (common && c == '\'')

end PageManifest.Url.Percent
