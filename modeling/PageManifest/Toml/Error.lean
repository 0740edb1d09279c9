import PageManifest.Decimal.Form
import PageManifest.Toml.Item
import PageManifest.Toml.Writer

/-!
# Errors of settings files

What can be wrong with a settings file. The text of an error shows the line and marks the
stretch that is wrong.
-/

namespace PageManifest.Toml

/-- Why a part of a text cannot stand although it is well formed. -/
inductive Cause where
  /-- A key is there already; the table is named if it has a header. -/
  | repeatedKey (key : String) (table : Option (List String))
  /-- A dotted key leads through something else than a table. -/
  | extendsValue (path : List String) (kind : String)
  | outOfRange
  | tooDeep
  | numberTooLarge
  | numberTooSmall
deriving DecidableEq, Repr

/-- Why a part of a text cannot stand, in words. -/
def Cause.message : Cause → String
  | .repeatedKey key none => "duplicate key `" ++ key ++ "`"
  | .repeatedKey key (some []) => "duplicate key `" ++ key ++ "` in document root"
  | .repeatedKey key (some table) =>
    "duplicate key `" ++ key ++ "` in table `" ++ ".".intercalate table ++ "`"
  | .extendsValue path kind =>
    "dotted key `" ++ ".".intercalate path ++ "` attempted to extend non-table type (" ++
      kind ++ ")"
  | .outOfRange => "value is out of range"
  | .tooDeep => "recursion limit exceeded"
  | .numberTooLarge => "number too large to fit in target type"
  | .numberTooSmall => "number too small to fit in target type"

/-- What is wrong with a settings file. -/
inductive Fault where
  /-- The text is malformed: the part that is, what was expected, and why. -/
  | malformed (part : Option String) (expected : List String) (cause : Option Cause)
  /-- An item is of another kind than its field. -/
  | mismatch (found expected : String)
  /-- An item is of the right kind, but its field cannot hold it. -/
  | unfit (found expected : String)
deriving DecidableEq, Repr

/-- What is wrong, in words. -/
def Fault.message : Fault → String
  | .malformed part expected cause =>
    "\n".intercalate
      ((part.map ("invalid " ++ ·)).toList ++
        (if expected.isEmpty then [] else ["expected " ++ ", ".intercalate expected]) ++
        (cause.map Cause.message).toList)
  | .mismatch found expected => "invalid type: " ++ found ++ ", expected " ++ expected
  | .unfit found expected => "invalid value: " ++ found ++ ", expected " ++ expected

/-- A fault and the bytes of the text that it concerns. -/
structure Error where
  fault : Fault
  text : String
  start : Nat
  length : Nat
deriving DecidableEq, Repr

namespace Error

/-- How many bytes some characters take. -/
def byteCount (cs : List Char) : Nat := cs.foldl (fun n c => n + c.utf8Size) 0

/-- The characters of which the first bytes of a text consist. -/
def charsBefore : Nat → List Char → List Char
  | _, [] => []
  | bytes, c :: rest => if bytes < c.utf8Size then [] else c :: charsBefore (bytes - c.utf8Size) rest

/-- The characters behind the last line break. -/
def lastLine (cs : List Char) : List Char := (cs.reverse.takeWhile (· ≠ '\n')).reverse

/-- Where an error is: the number of its line, counted from zero, and how far into the
line it is. That is a number of characters, but one of bytes in front of a character of
more than one byte. The end of the text is one past its last character. -/
def place (e : Error) : Nat × Nat :=
  let cs := e.text.toList
  let before := charsBefore e.start cs
  match cs.drop before.length with
  | c :: _ =>
    let line := lastLine before
    (before.count '\n', if c.utf8Size = 1 then line.length else byteCount line)
  | [] =>
    let before := cs.dropLast
    (before.count '\n', if cs.isEmpty then 0 else (lastLine before).length + 1)

/-- The text of an error. -/
def message (e : Error) : String :=
  let (line, column) := e.place
  let number := toString (line + 1)
  let content := (e.text.splitOn "\n").getD line ""
  let marks := min e.length (content.utf8ByteSize - column)
  let gutter := String.ofList (List.replicate (number.length + 1) ' ') ++ "|"
  "TOML parse error at line " ++ number ++ ", column " ++ toString (column + 1) ++ "\n" ++
    gutter ++ "\n" ++
    number ++ " | " ++ content ++ "\n" ++
    gutter ++ String.ofList (List.replicate (column + 1) ' ' ++ List.replicate (max marks 1) '^') ++ "\n" ++
    e.fault.message ++ "\n"

end Error

end PageManifest.Toml
