import PageManifest.Toml.Error

/-!
# Attempts at reading

A reader takes the characters that are left and returns what it read with the characters
after it. A failure is provisional, so that another reader may be tried from the same
place, or final. On its way out it collects what part was read and what was expected.
-/

namespace PageManifest.Toml

/-- Why reading stopped, and what was left there. -/
structure Failure where
  rest : List Char
  isFinal : Bool
  part : Option String := none
  expected : List String := []
  cause : Option Cause := none
deriving DecidableEq

/-- A provisional failure in front of the characters that are left. -/
def stop {α : Type} (rest : List Char) : Except Failure α := .error { rest, isFinal := false }

/-- A final failure with a cause. -/
def refuse {α : Type} (rest : List Char) (cause : Cause) : Except Failure α :=
  .error { rest, isFinal := true, cause := some cause }

/-- Makes a failure final. -/
def commit {α : Type} (attempt : Except Failure α) : Except Failure α :=
  attempt.mapError fun failure => { failure with isFinal := true }

/-- Names the part that an attempt reads, unless a part of it is named. -/
def naming {α : Type} (part : String) (attempt : Except Failure α) : Except Failure α :=
  attempt.mapError fun failure => { failure with part := failure.part <|> some part }

/-- Says what an attempt expects. -/
def expecting {α : Type} (expected : List String) (attempt : Except Failure α) :
    Except Failure α :=
  attempt.mapError fun failure => { failure with expected := failure.expected ++ expected }

/-- Tries another reader after a provisional failure. If both fail, the later failure
counts. -/
def orTry {α : Type} (first second : Except Failure α) : Except Failure α :=
  match first with
  | .ok a => .ok a
  | .error failure =>
    if failure.isFinal then .error failure
    else second

/-- What an attempt gives, if it does not fail provisionally. -/
def optional {α : Type} (attempt : Except Failure α) : Except Failure (Option α) :=
  match attempt with
  | .ok a => .ok (some a)
  | .error failure => if failure.isFinal then .error failure else .ok none

/-- Reads one given character. -/
def char (c : Char) (cs : List Char) : Except Failure (List Char) :=
  match cs with
  | d :: rest => if d = c then .ok rest else stop cs
  | [] => stop cs

/-- Reads a given text. -/
def word (expected : List Char) (cs : List Char) : Except Failure (List Char) :=
  if expected.isPrefixOf cs then .ok (cs.drop expected.length) else stop cs

/-- The stretch between two places of the text. -/
def stretchTo (cs rest : List Char) : Stretch := ⟨Error.byteCount cs, Error.byteCount rest⟩

/-- The error of a failure at its place in the text. It concerns one character. -/
def Failure.toError (failure : Failure) (text : String) : Error :=
  { fault := .malformed failure.part failure.expected failure.cause
    text
    start := text.utf8ByteSize - Error.byteCount failure.rest
    length := match failure.rest with
      | c :: _ => c.utf8Size
      | [] => 0 }

end PageManifest.Toml
