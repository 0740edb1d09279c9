import PageManifest.Text.Printable

/-!
# Quoted text

Text between quotes in a message: quotes, backslashes and the common controls have short
escapes, and every other character that would not show is written by its number.
-/

namespace PageManifest.Text.Quoted

/-- A character written by its number. -/
def numbered (c : Char) : List Char :=
  '\\' :: 'u' :: '\x7b' :: Nat.toDigits 16 c.toNat ++ ['\x7d']

/-- A character as it stands between quotes. -/
def escape (c : Char) : List Char :=
  match c with
  | '\x00' => ['\\', '0']
  | '\t' => ['\\', 't']
  | '\r' => ['\\', 'r']
  | '\n' => ['\\', 'n']
  | '\\' => ['\\', '\\']
  | '"' => ['\\', '"']
  | c => if isExtending c || !isPrintable c then numbered c else [c]

/-- A text between quotes. -/
def quote (text : String) : String :=
  String.ofList ('"' :: text.toList.flatMap escape ++ ['"'])

end PageManifest.Text.Quoted
