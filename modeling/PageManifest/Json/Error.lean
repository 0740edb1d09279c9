import PageManifest.Decimal.Form
import PageManifest.Text.Quoted
import PageManifest.Value.Basic

/-!
# Errors of JSON text

What can be wrong with a JSON text, and where. The place of an error is a line and the
number of bytes of that line before it.
-/

namespace PageManifest.Json

/-- Numbers are positional for first digits from 10⁻⁵ to 10¹⁵, integral ones keep their
point, and exponents have a sign. -/
def numberForm : Decimal.Form :=
  { least := some (-5), greatest := some 15, signedExponent := true, keepsPoint := true }

/-- The parts of a text that can be left unfinished. -/
inductive Part where
  | value
  | string
  | list
  | object
deriving DecidableEq, Repr

/-- A part with its article. -/
def Part.phrase : Part → String
  | .value => "a value"
  | .string => "a string"
  | .list => "a list"
  | .object => "an object"

/-- What was found where something else was expected. -/
inductive Found where
  | null
  | bool (value : Bool)
  | number (value : Number)
  | string (text : String)
  | sequence
  | map
deriving Repr

/-- What was found, in words. -/
def Found.phrase : Found → String
  | .null => "null"
  | .bool b => if b then "boolean `true`" else "boolean `false`"
  | .number (.int n) => "integer `" ++ toString n ++ "`"
  | .number (.float x) => "floating point `" ++ numberForm.write x ++ "`"
  | .string text => "string " ++ Text.Quoted.quote text
  | .sequence => "sequence"
  | .map => "map"

/-- What is wrong with a text. -/
inductive Fault where
  | unfinished (part : Part)
  | colonExpected
  | listSeparatorExpected
  | objectSeparatorExpected
  | wordExpected
  | valueExpected
  | badEscape
  | badNumber
  | numberOutOfRange
  | controlInString
  | keyNotString
  | loneSurrogate
  | unfinishedSurrogatePair
  | trailingComma
  | trailingCharacters
  | tooDeep
  | mismatch (found : Found) (expected : String)
  | unknownName (name : String) (known : List String)
  | repeatedField (name : String)
deriving Repr

/-- Names between backticks, separated by commas. -/
def quotedNames (names : List String) : String :=
  ", ".intercalate (names.map fun name => "`" ++ name ++ "`")

/-- What is wrong, in words. -/
def Fault.message : Fault → String
  | .unfinished part => "EOF while parsing " ++ part.phrase
  | .colonExpected => "expected `:`"
  | .listSeparatorExpected => "expected `,` or `]`"
  | .objectSeparatorExpected => "expected `,` or `\x7d`"
  | .wordExpected => "expected ident"
  | .valueExpected => "expected value"
  | .badEscape => "invalid escape"
  | .badNumber => "invalid number"
  | .numberOutOfRange => "number out of range"
  | .controlInString => "control character (\\u0000-\\u001F) found while parsing a string"
  | .keyNotString => "key must be a string"
  | .loneSurrogate => "lone leading surrogate in hex escape"
  | .unfinishedSurrogatePair => "unexpected end of hex escape"
  | .trailingComma => "trailing comma"
  | .trailingCharacters => "trailing characters"
  | .tooDeep => "recursion limit exceeded"
  | .mismatch found expected => "invalid type: " ++ found.phrase ++ ", expected " ++ expected
  | .unknownName name known => "unknown variant `" ++ name ++ "`, expected one of " ++ quotedNames known
  | .repeatedField name => "duplicate field `" ++ name ++ "`"

/-- A fault and its place. -/
structure Error where
  fault : Fault
  line : Nat
  column : Nat
deriving Repr

/-- The text of an error. -/
def Error.message (e : Error) : String :=
  s!"{e.fault.message} at line {e.line} column {e.column}"

/-- A fault, and how many bytes of the text come after its place. -/
structure Failure where
  fault : Fault
  unread : Nat

/-- How many bytes a list of characters takes. -/
def byteCount (cs : List Char) : Nat := cs.foldl (fun n c => n + c.utf8Size) 0

/-- A failure with its place in the text. -/
def Failure.locate (failure : Failure) (text : String) : Error :=
  let bytes := text.toUTF8.data.toList
  let before := bytes.take (bytes.length - failure.unread)
  { fault := failure.fault
    line := before.count 10 + 1
    column := (before.reverse.takeWhile (· != 10)).length }

end PageManifest.Json
