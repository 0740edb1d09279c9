/-!
# Hexadecimal digits
-/

namespace PageManifest.Text

/-- The value of a hexadecimal digit. -/
def hexValue? (c : Char) : Option Nat :=
  if c.isDigit then some (c.toNat - '0'.toNat)
  else if 'a' ≤ c && c ≤ 'f' then some (c.toNat - 'a'.toNat + 10)
  else if 'A' ≤ c && c ≤ 'F' then some (c.toNat - 'A'.toNat + 10)
  else none

/-- The number written by a given count of hexadecimal digits in front of a text. -/
def hexNumber? : Nat → Nat → List Char → Option Nat
  | 0, acc, _ => some acc
  | _ + 1, _, [] => none
  | count + 1, acc, c :: rest =>
    match hexValue? c with
    | some d => hexNumber? count (acc * 16 + d) rest
    | none => none

end PageManifest.Text
