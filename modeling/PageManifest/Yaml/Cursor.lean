/-!
# Places in a YAML text

A mark counts bytes, lines and columns from zero. A cursor is the text that is left
together with the mark of its first character; reading moves both.
-/

namespace PageManifest.Yaml

/-- A place in a text. -/
structure Mark where
  index : Nat
  line : Nat
  column : Nat
deriving DecidableEq, Repr, Inhabited

namespace Mark

/-- The first place of a text. -/
def origin : Mark := ⟨0, 0, 0⟩

/-- Whether a mark is at the first line and column. -/
def atOrigin (m : Mark) : Bool := m.line == 0 && m.column == 0

/-- Whether two marks have the same line and column. -/
def samePlace (m n : Mark) : Bool := m.line == n.line && m.column == n.column

/-- A mark in words, counted from one. -/
def phrase (m : Mark) : String := s!"line {m.line + 1} column {m.column + 1}"

/-- The words that follow a message about a place, none for the first place. -/
def suffix (m : Mark) : String := if m.atOrigin then "" else " at " ++ m.phrase

end Mark

/-! ## Classes of characters -/

/-- Whether a character ends a line. -/
def isBreak (c : Char) : Bool :=
  c == '\n' || c == '\r' || c == '\x85' || c == '\u2028' || c == '\u2029'

/-- Whether a character is a space or a tab. -/
def isPad (c : Char) : Bool := c == ' ' || c == '\t'

/-- Whether a character is a space, a tab or the end of a line. -/
def isGap (c : Char) : Bool := isPad c || isBreak c

/-- Whether a character may stand in a name. -/
def isNameChar (c : Char) : Bool := c.isAlphanum || c == '_' || c == '-'

/-- Whether a text starts with a character of a class. -/
def startsWith (p : Char → Bool) : List Char → Bool
  | c :: _ => p c
  | [] => false

/-- Whether a text is empty or starts with a gap. -/
def startsGap : List Char → Bool
  | c :: _ => isGap c
  | [] => true

/-- Whether a text is empty or starts with the end of a line. -/
def startsBreak : List Char → Bool
  | c :: _ => isBreak c
  | [] => true

/-- Whether a text starts with three given characters and a gap. -/
def startsIndicator (mark : Char) : List Char → Bool
  | a :: b :: c :: rest => a == mark && b == mark && c == mark && startsGap rest
  | _ => false

/-- Whether a character may stand in a document at all. -/
def isAllowed (c : Char) : Bool :=
  let n := c.toNat
  n == 0x9 || n == 0xA || n == 0xD || (0x20 ≤ n && n ≤ 0x7E) || n == 0x85 ||
    (0xA0 ≤ n && n ≤ 0xFFFD) || 0x10000 ≤ n

/-- How many bytes some characters take. -/
def byteCount (cs : List Char) : Nat := cs.foldl (fun n c => n + c.utf8Size) 0

/-- A text that is left, and where it starts. -/
structure Cursor where
  rest : List Char
  mark : Mark
deriving Repr

namespace Cursor

/-- The cursor at the start of a text. -/
def start (text : List Char) : Cursor := ⟨text, .origin⟩

/-- The cursor behind a number of characters that do not end a line. -/
def advance (cur : Cursor) (count : Nat) : Cursor :=
  { rest := cur.rest.drop count
    mark := { cur.mark with
      index := cur.mark.index + byteCount (cur.rest.take count)
      column := cur.mark.column + count } }

/-- The cursor behind the characters in front that satisfy a test. None of them may end
a line. -/
def skipWhile (p : Char → Bool) (cur : Cursor) : Cursor :=
  cur.advance (cur.rest.takeWhile p).length

/-- The line break in front, as it is kept, and the cursor behind it. A carriage return,
with or without a line feed, and a next-line character become a line feed. -/
def takeBreak (cur : Cursor) : List Char × Cursor :=
  let next := fun (width : Nat) (rest : List Char) =>
    (⟨rest, ⟨cur.mark.index + width, cur.mark.line + 1, 0⟩⟩ : Cursor)
  match cur.rest with
  | '\r' :: '\n' :: rest => (['\n'], next 2 rest)
  | c :: rest =>
    if c == '\u2028' || c == '\u2029' then ([c], next c.utf8Size rest)
    else if isBreak c then (['\n'], next c.utf8Size rest)
    else ([], cur)
  | [] => ([], cur)

/-- The cursor behind the line break in front. -/
def skipBreak (cur : Cursor) : Cursor := cur.takeBreak.2

/-- The cursor behind the rest of the line, the break left out. -/
def skipLine (cur : Cursor) : Cursor := cur.skipWhile (!isBreak ·)

/-- The cursor behind a comment, if one is in front. -/
def skipComment (cur : Cursor) : Cursor :=
  if startsWith (· == '#') cur.rest then cur.skipLine else cur

/-- Whether the cursor is at the first column, in front of a document marker. -/
def atDocumentMarker (cur : Cursor) : Bool :=
  cur.mark.column == 0 && (startsIndicator '-' cur.rest || startsIndicator '.' cur.rest)

end Cursor

end PageManifest.Yaml
