import PageManifest.Json.Error

/-!
# Writing JSON text

The compact text of a value: no space between the parts, entries in their order, quotes
and backslashes and controls escaped in strings, and every other character as it is.
Numbers that are not finite have no JSON form and are written as `null`.
-/

namespace PageManifest.Json

/-- The digit for a value below sixteen. -/
def hexDigit (n : Nat) : Char := (Nat.digitChar n)

/-- A character as it stands in a string. -/
def escapeChar (c : Char) : List Char :=
  match c with
  | '"' => ['\\', '"']
  | '\\' => ['\\', '\\']
  | '\x08' => ['\\', 'b']
  | '\x0c' => ['\\', 'f']
  | '\n' => ['\\', 'n']
  | '\r' => ['\\', 'r']
  | '\t' => ['\\', 't']
  | c =>
    if c.toNat < 0x20 then
      ['\\', 'u', '0', '0', hexDigit (c.toNat / 16), hexDigit (c.toNat % 16)]
    else [c]

/-- The characters of a string with its quotes. -/
def stringText (text : String) : List Char := '"' :: text.toList.flatMap escapeChar ++ ['"']

/-- The characters of a whole number. -/
def intText : Int → List Char
  | .ofNat n => Nat.toDigits 10 n
  | .negSucc n => '-' :: Nat.toDigits 10 (n + 1)

/-- The characters of a number. -/
def numberText : Number → List Char
  | .int n => intText n
  | .float x => if x.isFinite then (numberForm.write x).toList else ['n', 'u', 'l', 'l']

mutual

/-- The characters of a value. -/
def valueText : Value → List Char
  | .null => ['n', 'u', 'l', 'l']
  | .bool true => ['t', 'r', 'u', 'e']
  | .bool false => ['f', 'a', 'l', 's', 'e']
  | .number n => numberText n
  | .string text => stringText text
  | .sequence [] => ['[', ']']
  | .sequence (item :: items) => '[' :: valueText item ++ itemsText items ++ [']']
  | .mapping [] => ['{', '}']
  | .mapping ((key, item) :: entries) =>
    '{' :: stringText key ++ ':' :: valueText item ++ entriesText entries ++ ['}']

/-- The characters of the items of a list, each behind a comma. -/
def itemsText : List Value → List Char
  | [] => []
  | item :: items => ',' :: valueText item ++ itemsText items

/-- The characters of the members of an object, each behind a comma. -/
def entriesText : List (String × Value) → List Char
  | [] => []
  | (key, item) :: entries => ',' :: stringText key ++ ':' :: valueText item ++ entriesText entries

end

/-- The text of a value. -/
def write (value : Value) : String := String.ofList (valueText value)

end PageManifest.Json
