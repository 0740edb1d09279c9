import PageManifest.Json.Typed
import PageManifest.Validation.Basic

/-!
# Reading verdicts

A verdict is an object with the members `valid` and `errors`, in any order and each at
most once; other members are passed over, and an absent one counts as invalid or as no
errors. It may also be a list of the two values, from which values at the end are absent.
-/

namespace PageManifest.Validation

open PageManifest.Json (Failure failAt failPast)

/-! ## Objects -/

/-- The members that have been read. -/
structure Members where
  valid : Option Bool := none
  errors : Option (List String) := none

/-- The verdict that members give. -/
def Members.verdict (found : Members) : Validation :=
  { valid := found.valid.getD false, errors := found.errors.getD [] }

/-- The failure of a member that comes twice; it stands behind the brace, should the
object end here. -/
def repeated {α : Type} (name : String) (rest : List Char) : Except Failure α :=
  match Json.skipSpace rest with
  | '}' :: after => failAt (.repeatedField name) after
  | rest => failAt (.repeatedField name) rest

/-- Reads a member behind its key. -/
def member (found : Members) (key : String) (cs : List Char) :
    Except Failure (Members × List Char) :=
  if key = "valid" then
    if found.valid.isSome then repeated key cs
    else do
      let (valid, rest) ← Json.bool (← Json.colon cs)
      return ({ found with valid := some valid }, rest)
  else if key = "errors" then
    if found.errors.isSome then repeated key cs
    else do
      let (errors, rest) ← Json.texts (← Json.colon cs)
      return ({ found with errors := some errors }, rest)
  else do
    let rest ← Json.skip (← Json.colon cs)
    return (found, rest)

/-- Reads the members of an object, and past its end. -/
def members : Nat → Bool → Members → List Char → Except Failure (Members × List Char)
  | 0, _, _, cs => failPast (.unfinished .object) cs
  | fuel + 1, first, found, cs => do
    match ← Json.nextKey? first cs with
    | (false, rest) => return (found, rest)
    | (true, rest) =>
      let (key, rest) ← Json.string rest
      let (found, rest) ← member found key rest
      members fuel false found rest

/-! ## Lists -/

/-- Goes past the end of a list behind its second item. -/
def endOfList (cs : List Char) : Except Failure (List Char) :=
  match Json.skipSpace cs with
  | ']' :: rest => .ok rest
  | ',' :: rest =>
    match Json.skipSpace rest with
    | ']' :: after => failPast .trailingComma (']' :: after)
    | after => failPast .trailingCharacters after
  | [] => failPast (.unfinished .list) []
  | rest => failPast .trailingCharacters rest

/-- Reads the items of a list, and past its end. -/
def items (cs : List Char) : Except Failure (Validation × List Char) := do
  match ← Json.nextItem? true cs with
  | (false, rest) => return ({}, rest)
  | (true, rest) =>
    let (valid, rest) ← Json.bool rest
    match ← Json.nextItem? false rest with
    | (false, rest) => return ({ valid }, rest)
    | (true, rest) =>
      let (errors, rest) ← Json.texts rest
      return ({ valid, errors }, ← endOfList rest)

/-- Reads a JSON text that holds a verdict. -/
def ofJson (text : String) : Except Json.Error Validation :=
  Json.readWhole (fun cs =>
    match Json.skipSpace cs with
    | '{' :: rest => do
      let (found, rest) ← members (Json.stepsFor cs) true {} rest
      return (found.verdict, rest)
    | '[' :: rest => items rest
    | [] => failPast (.unfinished .value) []
    | rest => .error (Json.mismatch "struct ValidationResult" rest)) text

end PageManifest.Validation
