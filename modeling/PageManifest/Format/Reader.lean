import PageManifest.Error
import PageManifest.Json.Typed

/-!
# Reading format names

A format is named by a plain text or, in JSON text, by a string or by an object whose one
member has the name as its key and `null` as its value.
-/

namespace PageManifest.Format

/-- The format that a text names. -/
def parse (text : String) : Except Error Format :=
  match ofText? text with
  | some format => .ok format
  | none => .error (.unsupportedFormat text)

/-- Reads a string that names a format. -/
def jsonName (cs : List Char) : Except Json.Failure (Format × List Char) := do
  let (text, rest) ← Json.text "variant identifier" cs
  match named? text with
  | some format => return (format, rest)
  | none => Json.failAt (.unknownName text (all.map name)) rest

/-- Reads an object behind its brace. -/
def jsonMember (cs : List Char) : Except Json.Failure (Format × List Char) := do
  let (format, rest) ← jsonName cs
  let rest ← Json.colon rest
  let rest ← Json.unit rest
  match Json.skipSpace rest with
  | '}' :: rest => return (format, rest)
  | [] => Json.failAt (.unfinished .object) []
  | rest => Json.failAt .valueExpected rest

/-- Reads a JSON text that names a format. -/
def ofJson (text : String) : Except Json.Error Format :=
  Json.readWhole (fun cs =>
    match Json.skipSpace cs with
    | '{' :: rest => jsonMember rest
    | '"' :: rest => jsonName ('"' :: rest)
    | [] => Json.failPast (.unfinished .value) []
    | rest => Json.failPast .valueExpected rest) text

/-- The value that stands for a format. -/
def toValue (format : Format) : Value := .string format.name

end PageManifest.Format
