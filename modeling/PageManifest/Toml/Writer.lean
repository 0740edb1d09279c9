/-!
# Writing strings of settings files

A string has four forms. The plainest one that needs no escapes is taken: between double
quotes, between apostrophes, or between three of either, on lines of its own if it has
line breaks. A text that has to be escaped stands between double quotes.
-/

namespace PageManifest.Toml

/-- What about a text decides its form. -/
structure Traits where
  hasLineBreak : Bool
  hasBackslash : Bool
  /-- Whether it has a control other than a tab or a line break. -/
  hasControl : Bool
  /-- The most apostrophes in a row. -/
  apostrophes : Nat
  /-- The most double quotes in a row. -/
  quotes : Nat
deriving DecidableEq, Repr

/-- The most occurrences of a character in a row, given how many there were just before. -/
def longestRun (mark : Char) : Nat → List Char → Nat
  | before, [] => before
  | before, c :: rest =>
    if c = mark then longestRun mark (before + 1) rest else max before (longestRun mark 0 rest)

/-- Whether a character is a control that has to be escaped in every form. -/
def isBadControl (c : Char) : Bool :=
  (c.toNat < 0x20 && c != '\t' && c != '\n') || c.toNat == 0x7F

/-- What about a text decides its form. -/
def Traits.ofChars (cs : List Char) : Traits :=
  { hasLineBreak := cs.contains '\n'
    hasBackslash := cs.contains '\\'
    hasControl := cs.any isBadControl
    apostrophes := longestRun '\'' 0 cs
    quotes := longestRun '"' 0 cs }

/-- A digit of the number of a character. -/
def numberDigit (n : Nat) : Char := (Nat.digitChar n).toUpper

/-- A character by its number, in four digits. -/
def numbered (c : Char) : List Char :=
  ['\\', 'u', '0', '0', numberDigit (c.toNat / 16), numberDigit (c.toNat % 16)]

/-- A character between double quotes that is no double quote. On lines of its own a
text keeps its line breaks. -/
def escaped (multiline : Bool) (c : Char) : List Char :=
  match c with
  | '\x08' => ['\\', 'b']
  | '\t' => ['\\', 't']
  | '\n' => if multiline then ['\n'] else ['\\', 'n']
  | '\x0c' => ['\\', 'f']
  | '\r' => ['\\', 'r']
  | '\\' => ['\\', '\\']
  | c => if c.toNat < 0x20 || c.toNat == 0x7F then numbered c else [c]

/-- A text between double quotes. Between three of them two quotes in a row are written
as they are, and each third one since the last escape has a backslash. -/
def escapedText (multiline : Bool) : Nat → List Char → List Char
  | _, [] => []
  | quotes, c :: rest =>
    if c = '"' then
      if multiline && quotes < 2 then '"' :: escapedText multiline (quotes + 1) rest
      else '\\' :: '"' :: escapedText multiline 0 rest
    else escaped multiline c ++ escapedText multiline 0 rest

/-- The forms of a string. -/
inductive StringForm where
  | quoted
  | literal
  | quotedLines
  | literalLines
deriving DecidableEq, Repr

/-- The form in which a text is written. -/
def Traits.form (traits : Traits) : StringForm :=
  if !traits.hasControl && !traits.hasBackslash && traits.quotes = 0 && !traits.hasLineBreak then
    .quoted
  else if !traits.hasControl && traits.apostrophes = 0 && !traits.hasLineBreak then .literal
  else if !traits.hasControl && !traits.hasBackslash && traits.quotes ≤ 2 then .quotedLines
  else if !traits.hasControl && traits.apostrophes ≤ 2 then .literalLines
  else if traits.hasLineBreak then .quotedLines
  else .quoted

/-- The characters of a string in its form. -/
def stringText (text : String) : List Char :=
  let cs := text.toList
  let traits := Traits.ofChars cs
  let opening := if traits.hasLineBreak then ['\n'] else []
  match traits.form with
  | .quoted => '"' :: escapedText false 0 cs ++ ['"']
  | .literal => '\'' :: cs ++ ['\'']
  | .quotedLines => "\"\"\"".toList ++ opening ++ escapedText true 0 cs ++ "\"\"\"".toList
  | .literalLines => "'''".toList ++ opening ++ cs ++ "'''".toList

/-- A string in its form. -/
def writeString (text : String) : String := String.ofList (stringText text)

/-! ## Keys -/

/-- Whether a character may stand in a key without quotes. -/
def isBareKeyChar (c : Char) : Bool := c.isAlphanum || c == '-' || c == '_'

/-- A key as it is written: without quotes if it can be, else between double quotes or
apostrophes. -/
def writeKey (text : String) : String :=
  let cs := text.toList
  let traits := Traits.ofChars cs
  if !cs.isEmpty && cs.all isBareKeyChar then text
  else
    let literal := !traits.hasControl && traits.apostrophes = 0 && !traits.hasLineBreak &&
      (traits.hasBackslash || traits.quotes ≠ 0)
    if literal then "'" ++ text ++ "'"
    else String.ofList ('"' :: escapedText false 0 cs ++ ['"'])

end PageManifest.Toml
