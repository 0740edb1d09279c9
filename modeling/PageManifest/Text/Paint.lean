/-!
# Coloured text

Terminals colour what stands between two escape sequences. A sequence starts with an
escape character and a bracket and ends with the letter `m`.
-/

namespace PageManifest.Text

/-- The bright colours in use, by their numbers. -/
inductive Color where
  | red
  | green
  | yellow
  | blue
  | cyan
deriving DecidableEq, Repr

/-- The number of a colour. -/
def Color.number : Color → Nat
  | .red => 9
  | .green => 10
  | .yellow => 11
  | .blue => 12
  | .cyan => 14

/-- An escape sequence. -/
def escapeSequence (body : String) : String := "\x1b[" ++ body ++ "m"

/-- The sequence that starts a colour. -/
def startColor (color : Color) : String := escapeSequence ("38;5;" ++ toString color.number)

/-- A text in a colour. -/
def paint (color : Color) (text : String) : String := startColor color ++ text ++ escapeSequence "39"

/-- A text in a colour and in bold letters. -/
def paintBold (color : Color) (text : String) : String :=
  startColor color ++ escapeSequence "1" ++ text ++ escapeSequence "0"

end PageManifest.Text
