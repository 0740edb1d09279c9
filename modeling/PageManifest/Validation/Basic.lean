import PageManifest.Value.Basic

/-!
# Verdicts

What a server says about a page description: whether it is valid, and what is wrong.
-/

namespace PageManifest

/-- What a server says about a page description. -/
structure Validation where
  valid : Bool := false
  errors : List String := []
deriving DecidableEq, Repr

namespace Validation

/-- Nothing is wrong. -/
def passed : Validation := { valid := true }

/-- The verdict that stands for a check that could not be made. -/
def failed (message : String) : Validation := { valid := false, errors := [message] }

/-- A verdict as a value. -/
def toValue (verdict : Validation) : Value :=
  .mapping [("valid", .bool verdict.valid), ("errors", .sequence (verdict.errors.map .string))]

end Validation

end PageManifest
