import PageManifest.Text.Width

/-!
# Tables

A table is drawn with lines around its cells. Every column is as wide as its widest cell; a cell
may have several lines, and each row is as high as its highest cell. This is how a table looks
that is not shown on a terminal: a terminal would have bold letters and a width of its own.
-/

namespace PageManifest.Text

/-- A cell of a header. -/
structure HeaderCell where
  text : String
  /-- Whether a terminal shows it in bold letters. -/
  isBold : Bool := false
deriving DecidableEq, Repr

/-- A table: a header, and rows of as many cells. -/
structure Table where
  header : List HeaderCell
  rows : List (List String)
deriving DecidableEq, Repr

namespace Table

/-- Splits characters into lines. -/
def lines : List Char → List (List Char)
  | [] => [[]]
  | c :: rest =>
    if c = '\n' then [] :: lines rest
    else
      match lines rest with
      | [] => [[c]]
      | line :: others => (c :: line) :: others

/-- A row: the lines of each of its cells. -/
abbrev Row := List (List (List Char))

/-- The row of some texts. -/
def row (texts : List String) : Row := texts.map fun text => lines text.toList

/-- How many columns of text each cell needs. -/
def cellWidths (row : Row) : List Nat :=
  row.map fun cell => (cell.map width).foldl Nat.max 0

/-- The greater one of the numbers at each place. -/
def widest : List Nat → List Nat → List Nat
  | a :: as, b :: bs => max a b :: widest as bs
  | [], bs => bs
  | as, [] => as

/-- How many columns of text each cell of any row needs. -/
def columnWidths (rows : List Row) : List Nat :=
  (rows.map cellWidths).foldl widest []

/-- A line between rows, from its ends, what it consists of, and where it crosses others. -/
def rule (outer : Char) (stroke crossing : Char) (widths : List Nat) : List Char :=
  outer :: (List.intercalate [crossing] (widths.map fun n => List.replicate (n + 2) stroke)) ++
    [outer]

/-- One line of the text of a row. -/
def textLine (widths : List Nat) (row : Row) (index : Nat) : List Char :=
  let cells := widths.zip row |>.map fun (n, cell) =>
    ' ' :: padTo n ((cell[index]?).getD []) ++ [' ']
  '|' :: List.intercalate ['|'] cells ++ ['|']

/-- The lines of the text of a row. -/
def rowLines (widths : List Nat) (row : Row) : List (List Char) :=
  let height := (row.map List.length).foldl Nat.max 0
  (List.range height).map (textLine widths row)

/-- A table as a text. -/
def draw (table : Table) : String :=
  let head := row (table.header.map HeaderCell.text)
  let rows := table.rows.map row
  let widths := columnWidths (head :: rows)
  let edge := rule '+' '-' '+' widths
  let between := rule '|' '-' '+' widths
  let inner := List.intercalate [between] (rows.map (rowLines widths))
  let all := [edge] ++ rowLines widths head ++ [rule '+' '=' '=' widths] ++ inner ++ [edge]
  String.ofList (List.intercalate ['\n'] all)

end Table

end PageManifest.Text
