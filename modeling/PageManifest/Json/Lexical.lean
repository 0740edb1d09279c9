import PageManifest.Json.Error
import PageManifest.Text.Hex

/-!
# Words, numbers and strings of JSON text

The parts of a JSON text that hold no other values. Each reader takes the characters
that are left and returns what it read with the characters after it.

A floating-point number is read as a whole number of at most 64 bits, which is then
multiplied or divided by a power of ten with one rounding each. Digits past the 64 bits
count only towards the power.
-/

namespace PageManifest.Json

/-- A failure in front of the characters that are left. -/
def failAt {α : Type} (fault : Fault) (rest : List Char) : Except Failure α :=
  .error ⟨fault, byteCount rest⟩

/-- A failure behind the next byte, if there is one. -/
def failPast {α : Type} (fault : Fault) (rest : List Char) : Except Failure α :=
  .error ⟨fault, byteCount rest - 1⟩

/-- Whether a character may stand between the parts of a text. -/
def isSpace (c : Char) : Bool := c == ' ' || c == '\n' || c == '\t' || c == '\r'

/-- The characters after the space in front. -/
def skipSpace (cs : List Char) : List Char := cs.dropWhile isSpace

/-- Reads the rest of a word whose first letter has been read. -/
def word : List Char → List Char → Except Failure (List Char)
  | [], rest => .ok rest
  | _ :: _, [] => failAt (.unfinished .value) []
  | e :: es, c :: rest => if c = e then word es rest else failPast .wordExpected (c :: rest)

/-! ## Numbers -/

/-- The value of a decimal digit. -/
def digitValue (c : Char) : Nat := c.toNat - '0'.toNat

/-- The greatest significand that a number keeps. -/
def significandLimit : Nat := 0xFFFFFFFFFFFFFFFF

/-- Reads digits as long as the significand stays within a limit: the significand, how
many digits were read, and what is left. -/
def digitsWithin (limit : Nat) : List Char → Nat → Nat → Nat × Nat × List Char
  | [], acc, count => (acc, count, [])
  | c :: rest, acc, count =>
    if c.isDigit && acc * 10 + digitValue c ≤ limit then
      digitsWithin limit rest (acc * 10 + digitValue c) (count + 1)
    else (acc, count, c :: rest)

/-- The characters after the digits in front. -/
def skipDigits (cs : List Char) : List Char := cs.dropWhile Char.isDigit

/-- Multiplies or divides by a power of ten, in steps of `10 ^ 308` where the power is
smaller than that. There is no result above the range. -/
def scale : Nat → Binary64 → Int → Option Binary64
  | 0, _, _ => some (.zero false)
  | fuel + 1, x, exponent =>
    if exponent > 308 then if x.magnitude = 0 then some x else none
    else if exponent < -308 then
      if x.magnitude = 0 then some x
      else scale fuel (x.div (.ofDecimal false 1 308)) (exponent + 308)
    else if exponent < 0 then some (x.div (.ofDecimal false 1 (-exponent)))
    else
      let y := x.mul (.ofDecimal false 1 exponent)
      if y.isFinite then some y else none

/-- A floating-point number from its significand and exponent. -/
def finishFloat (positive : Bool) (significand : Nat) (exponent : Int) (rest : List Char) :
    Except Failure (Number × List Char) :=
  match scale 4 (.ofNat significand) exponent with
  | some x => .ok (.float (if positive then x else x.neg), rest)
  | none => failAt .numberOutOfRange rest

/-- The greatest exponent that is read exactly. -/
def exponentLimit : Nat := 0x7FFFFFFF

/-- Reads an exponent behind its mark. -/
def exponentPart (positive : Bool) (significand : Nat) (start : Int) (cs : List Char) :
    Except Failure (Number × List Char) :=
  let (up, cs) := match cs with
    | '+' :: rest => (true, rest)
    | '-' :: rest => (false, rest)
    | rest => (true, rest)
  match cs with
  | [] => failAt (.unfinished .value) []
  | c :: rest =>
    if !c.isDigit then failPast .badNumber (c :: rest)
    else
      let (exponent, _, rest) := digitsWithin exponentLimit (c :: rest) 0 0
      match rest with
      | d :: after =>
        if d.isDigit then
          if significand ≠ 0 && up then failAt .numberOutOfRange after
          else .ok (.float (.zero !positive), skipDigits after)
        else finishFloat positive significand (if up then start + exponent else start - exponent) rest
      | [] =>
        finishFloat positive significand (if up then start + exponent else start - exponent) rest

/-- Reads an exponent if its mark follows. -/
def exponentOrEnd (positive : Bool) (significand : Nat) (exponent : Int) (cs : List Char) :
    Except Failure (Number × List Char) :=
  match cs with
  | 'e' :: rest | 'E' :: rest => exponentPart positive significand exponent rest
  | rest => finishFloat positive significand exponent rest

/-- Whether the next character is a digit. -/
def startsWithDigit : List Char → Bool
  | c :: _ => c.isDigit
  | [] => false

/-- Reads the digits behind a point. -/
def fractionPart (positive : Bool) (significand : Nat) (exponent : Int) (cs : List Char) :
    Except Failure (Number × List Char) :=
  let (value, count, rest) := digitsWithin significandLimit cs significand 0
  if startsWithDigit rest then
    exponentOrEnd positive value (exponent - count) (skipDigits rest)
  else if count = 0 then
    failPast (if rest.isEmpty then .unfinished .value else .badNumber) rest
  else exponentOrEnd positive value (exponent - count) rest

/-- A whole number, or a floating-point one below the range and for a negative zero. -/
def wholeNumber (positive : Bool) (value : Nat) : Number :=
  if positive then .int value
  else if value = 0 || value > 0x8000000000000000 then .float (Binary64.neg (.ofNat value))
  else .int (-value)

/-- Reads what may follow the digits of a whole number. -/
def afterInteger (positive : Bool) (value : Nat) (cs : List Char) : Except Failure (Number × List Char) :=
  match cs with
  | '.' :: rest => fractionPart positive value 0 rest
  | 'e' :: rest | 'E' :: rest => exponentPart positive value 0 rest
  | rest => .ok (wholeNumber positive value, rest)

/-- Reads digits past the significand's limit, and what may follow them. -/
def longInteger (positive : Bool) (value : Nat) (cs : List Char) : Except Failure (Number × List Char) :=
  let count := (cs.takeWhile Char.isDigit).length
  match skipDigits cs with
  | '.' :: rest => fractionPart positive value count rest
  | rest => exponentOrEnd positive value count rest

/-- Reads a number without its sign. -/
def number (positive : Bool) (cs : List Char) : Except Failure (Number × List Char) :=
  match cs with
  | [] => failAt (.unfinished .value) []
  | '0' :: rest =>
    if startsWithDigit rest then failPast .badNumber rest else afterInteger positive 0 rest
  | c :: rest =>
    if !c.isDigit then failPast .badNumber (c :: rest)
    else
      let (value, _, after) := digitsWithin significandLimit (c :: rest) 0 0
      if startsWithDigit after then longInteger positive value after
      else afterInteger positive value after

/-! ## Strings -/

/-- Reads four hexadecimal digits. -/
def hexEscape (cs : List Char) : Except Failure (Nat × List Char) :=
  match Text.hexNumber? 4 0 cs with
  | some n => .ok (n, cs.drop 4)
  | none =>
    if byteCount cs < 4 then failAt (.unfinished .string) []
    else .error ⟨.badEscape, byteCount cs - 4⟩

/-- Reads a character that must follow the first half of a pair. -/
def pairMark (mark : Char) (cs : List Char) : Except Failure (List Char) :=
  match cs with
  | [] => failAt (.unfinished .string) []
  | c :: rest => if c = mark then .ok rest else failPast .unfinishedSurrogatePair (c :: rest)

/-- Reads a character given by its number, behind the mark of such an escape. Numbers
past the first plane come as a pair. -/
def unicodeEscape (cs : List Char) : Except Failure (Char × List Char) := do
  let (high, rest) ← hexEscape cs
  if 0xDC00 ≤ high && high ≤ 0xDFFF then failAt .loneSurrogate rest
  else if high < 0xD800 || 0xDBFF < high then return (Char.ofNat high, rest)
  else
    let rest ← pairMark '\\' rest
    let rest ← pairMark 'u' rest
    let (low, rest) ← hexEscape rest
    if low < 0xDC00 || 0xDFFF < low then failAt .loneSurrogate rest
    else return (Char.ofNat ((high - 0xD800) * 0x400 + (low - 0xDC00) + 0x10000), rest)

/-- The character that a letter stands for behind a backslash. -/
def shortEscape? : Char → Option Char
  | '"' => some '"'
  | '\\' => some '\\'
  | '/' => some '/'
  | 'b' => some '\x08'
  | 'f' => some '\x0c'
  | 'n' => some '\n'
  | 'r' => some '\r'
  | 't' => some '\t'
  | _ => none

/-- Reads an escape behind its backslash. -/
def escape (cs : List Char) : Except Failure (Char × List Char) :=
  match cs with
  | [] => failAt (.unfinished .string) []
  | 'u' :: rest => unicodeEscape rest
  | c :: rest =>
    match shortEscape? c with
    | some d => .ok (d, rest)
    | none => failPast .badEscape (c :: rest)

/-- Reads the characters of a string up to and past its closing quote. -/
def stringChars : Nat → List Char → Except Failure (List Char × List Char)
  | 0, rest => failAt (.unfinished .string) rest
  | _ + 1, [] => failAt (.unfinished .string) []
  | _ + 1, '"' :: rest => .ok ([], rest)
  | fuel + 1, '\\' :: rest => do
    let (c, rest) ← escape rest
    let (cs, rest) ← stringChars fuel rest
    return (c :: cs, rest)
  | fuel + 1, c :: rest =>
    if c.toNat < 0x20 then failAt .controlInString rest
    else do
      let (cs, rest) ← stringChars fuel rest
      return (c :: cs, rest)

/-- Reads a string behind its opening quote. -/
def string (cs : List Char) : Except Failure (String × List Char) := do
  let (text, rest) ← stringChars (cs.length + 1) cs
  return (String.ofList text, rest)

end PageManifest.Json
