import PageManifest.Config.Basic
import PageManifest.Text.Paint
import PageManifest.Text.Table

/-!
# Status lines

What is said to the user is a list of status lines. A console decides how they look: with
which glyphs, in colour or not, or not at all. Tables look different on a terminal. Nothing else
depends on the console.
-/

namespace PageManifest

/-- The glyphs of section headings. -/
inductive HeadingGlyph where
  | file
  | url
  | build
  /-- A glyph that is no setting. -/
  | text (glyph : String)
deriving DecidableEq, Repr

/-- The text of a heading's glyph. -/
def HeadingGlyph.glyph (icons : Icons) : HeadingGlyph → String
  | .file => icons.file
  | .url => icons.url
  | .build => icons.build
  | .text glyph => glyph

/-- One thing that is said to the user. -/
inductive StatusLine where
  | success (message : String)
  | failure (message : String)
  | info (message : String)
  | progress (message : String)
  /-- An item of a list. -/
  | detail (message : String)
  | heading (glyph : HeadingGlyph) (message : String)
  | table (contents : Text.Table)
deriving DecidableEq, Repr

/-- What status lines are shown on. -/
inductive Output where
  /-- A file, or another program. -/
  | plain
  /-- A terminal, and how it draws tables. That depends on how wide it is. -/
  | terminal (draw : Text.Table → String)

namespace Output

/-- How a table is drawn. -/
def draw : Output → Text.Table → String
  | .plain => Text.Table.draw
  | .terminal draw => draw

/-- Whether there is a terminal. -/
def isTerminal : Output → Bool
  | .plain => false
  | .terminal _ => true

end Output

namespace StatusLine

/-- The text of a line without colour. -/
def text (icons : Icons) (output : Output) : StatusLine → String
  | .success message => icons.success ++ " " ++ message
  | .failure message => icons.failure ++ " " ++ message
  | .info message => icons.info ++ " " ++ message
  | .progress message => message
  | .detail message => "  - " ++ message
  | .heading glyph message => "\n" ++ glyph.glyph icons ++ " " ++ message
  | .table contents => output.draw contents

/-- The colour of a line, if it has one. -/
def color? : StatusLine → Option Text.Color
  | .success _ => some .green
  | .failure _ => some .red
  | .heading _ _ => some .cyan
  | _ => none

end StatusLine

/-- How status lines look. -/
structure Console where
  icons : Icons := {}
  useColor : Bool := true
  isEnabled : Bool := true
  output : Output := .plain

namespace Console

/-- The console that settings ask for. -/
def ofSettings (settings : DisplaySettings) : Console :=
  { icons := settings.icons, useColor := settings.useColor }

/-- The console that shows nothing. -/
def silent : Console := { isEnabled := false }

/-- A line as it looks. -/
def decorate (console : Console) (line : StatusLine) : String :=
  match line.color?, console.useColor with
  | some color, true => Text.paint color (line.text console.icons console.output)
  | _, _ => line.text console.icons console.output

/-- What is printed for a line. -/
def render (console : Console) (line : StatusLine) : String :=
  if console.isEnabled then console.decorate line ++ "\n" else ""

/-- What is printed for some lines. -/
def transcript (console : Console) (lines : List StatusLine) : String :=
  String.join (lines.map console.render)

end Console

end PageManifest
