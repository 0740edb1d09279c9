import PageManifest.Text.Hex
import PageManifest.Yaml.Token

/-!
# Scalars of a YAML text

Plain, quoted and block scalars. In the first two a gap between words is folded
(`Gap.fold`): a single line break becomes a space, and of several breaks all but the first
are kept.
-/

namespace PageManifest.Yaml

/-! ## Folding -/

/-- The gap between two words of a scalar: its spaces and tabs as long as the line is not
left, and the line breaks after that. -/
structure Gap where
  pads : List Char
  broken : Bool
  firstBreak : List Char
  furtherBreaks : List Char

namespace Gap

/-- No gap. -/
def none : Gap := ⟨[], false, [], []⟩

/-- The gap behind a line break that is not kept. -/
def escapedBreak : Gap := ⟨[], true, [], []⟩

/-- What a gap contributes to the text. -/
def fold (gap : Gap) : List Char :=
  if !gap.broken then gap.pads
  else if gap.firstBreak = ['\n'] then
    if gap.furtherBreaks.isEmpty then [' '] else gap.furtherBreaks
  else gap.firstBreak ++ gap.furtherBreaks

/-- Adds a pad to a gap; at the start of a line it is dropped. -/
def addPad (gap : Gap) (c : Char) : Gap :=
  if gap.broken then gap else { gap with pads := gap.pads ++ [c] }

/-- Adds a line break to a gap. -/
def addBreak (gap : Gap) (kept : List Char) : Gap :=
  if gap.broken then { gap with furtherBreaks := gap.furtherBreaks ++ kept }
  else { gap with pads := [], broken := true, firstBreak := kept }

end Gap

/-- Reads the gap in front. With a least column, a tab left of it that starts a line ends
the reading. -/
def readGap (leastColumn : Option Nat) : Nat → Gap → Cursor → Gap × Cursor
  | 0, gap, cur => (gap, cur)
  | fuel + 1, gap, cur =>
    match cur.rest with
    | [] => (gap, cur)
    | c :: _ =>
      if isPad c then
        if c == '\t' && gap.broken && leastColumn.any (cur.mark.column < ·) then (gap, cur)
        else readGap leastColumn fuel (gap.addPad c) (cur.advance 1)
      else if isBreak c then
        let (kept, next) := cur.takeBreak
        readGap leastColumn fuel (gap.addBreak kept) next
      else (gap, cur)

/-! ## Plain scalars -/

/-- Whether a character ends a plain scalar in the flow style. -/
def isFlowIndicator (c : Char) : Bool :=
  c == ',' || c == '[' || c == ']' || c == '{' || c == '}'

/-- The characters of a plain word, up to a gap or an indicator. -/
def plainWord (inFlow : Bool) : List Char → List Char
  | [] => []
  | c :: rest =>
    if isGap c || (c == ':' && startsGap rest) || (inFlow && isFlowIndicator c) then []
    else if inFlow && c == ':' && startsWith (fun d => isFlowIndicator d || d == '?') rest then []
    else c :: plainWord inFlow rest

/-- Whether a colon is followed by an indicator, as it must not be in the flow style. -/
def isColonInFlow : List Char → Bool
  | c :: rest => c == ':' && startsWith (fun d => isFlowIndicator d || d == '?') rest
  | [] => false

/-- What reading a plain scalar gives: its text, where it ends, whether a line was left
behind it, and the cursor. -/
structure PlainScalar where
  text : List Char
  stop : Mark
  lineLeft : Bool
  cursor : Cursor

/-- Reads a plain scalar on from a gap. In the block style its further lines must be
indented by a least number of columns. -/
def readPlain (inFlow : Bool) (leastColumn : Nat) (began : Mark) :
    Nat → List Char → Mark → Gap → Cursor → Except Malformation PlainScalar
  | 0, text, stop, gap, cur => .ok ⟨text, stop, gap.broken, cur⟩
  | fuel + 1, text, stop, gap, cur =>
    if cur.atDocumentMarker || startsWith (· == '#') cur.rest then
      .ok ⟨text, stop, gap.broken, cur⟩
    else
      let word := plainWord inFlow cur.rest
      let next := cur.advance word.length
      if inFlow && isColonInFlow next.rest then problemAt .colonInFlow .plainScalar began next
      else
        let (text, stop, lineLeft) :=
          if word.isEmpty then (text, stop, gap.broken)
          else (text ++ gap.fold ++ word, next.mark, false)
        if !startsWith isGap next.rest then .ok ⟨text, stop, lineLeft, next⟩
        else
          let remaining := if word.isEmpty then gap else Gap.none
          let (gap, after) := readGap (some leastColumn) (fuel + 1) remaining next
          if startsWith (· == '\t') after.rest then
            problemAt .tabBeforeText .plainScalar began after
          else if !inFlow && after.mark.column < leastColumn then
            .ok ⟨text, stop, gap.broken, after⟩
          else readPlain inFlow leastColumn began fuel text stop gap after

/-! ## Quoted scalars -/

/-- What the character behind a backslash stands for: a character, or a number of
hexadecimal digits to come. -/
def escapeMeaning? : Char → Option (Char ⊕ Nat)
  | '0' => some (.inl '\x00')
  | 'a' => some (.inl '\x07')
  | 'b' => some (.inl '\x08')
  | 't' => some (.inl '\t')
  | '\t' => some (.inl '\t')
  | 'n' => some (.inl '\n')
  | 'v' => some (.inl '\x0b')
  | 'f' => some (.inl '\x0c')
  | 'r' => some (.inl '\r')
  | 'e' => some (.inl '\x1b')
  | ' ' => some (.inl ' ')
  | '"' => some (.inl '"')
  | '/' => some (.inl '/')
  | '\\' => some (.inl '\\')
  | 'N' => some (.inl '\x85')
  | '_' => some (.inl '\xa0')
  | 'L' => some (.inl '\u2028')
  | 'P' => some (.inl '\u2029')
  | 'x' => some (.inr 2)
  | 'u' => some (.inr 4)
  | 'U' => some (.inr 8)
  | _ => none

/-- Reads an escape, the cursor being in front of its backslash. -/
def readEscape (began : Mark) (cur : Cursor) : Except Malformation (Char × Cursor) :=
  match cur.rest with
  | _ :: c :: rest =>
    match escapeMeaning? c with
    | none => problemAt .unknownEscape .quotedScalar began cur
    | some (.inl d) => .ok (d, cur.advance 2)
    | some (.inr count) =>
      match Text.hexNumber? count 0 rest with
      | none => problemAt .noHexDigits .quotedScalar began (cur.advance 2)
      | some n =>
        if (0xD800 ≤ n && n ≤ 0xDFFF) || 0x10FFFF < n then
          problemAt .badCharacterNumber .quotedScalar began (cur.advance 2)
        else .ok (Char.ofNat n, cur.advance (2 + count))
  | _ => problemAt .unknownEscape .quotedScalar began cur

/-- Reads characters between single quotes up to a gap or the closing quote. -/
def singleQuotedWord : Nat → Cursor → List Char × Cursor
  | 0, cur => ([], cur)
  | fuel + 1, cur =>
    match cur.rest with
    | [] => ([], cur)
    | '\'' :: '\'' :: _ =>
      let (word, next) := singleQuotedWord fuel (cur.advance 2)
      ('\'' :: word, next)
    | c :: _ =>
      if c == '\'' || isGap c then ([], cur)
      else
        let (word, next) := singleQuotedWord fuel (cur.advance 1)
        (c :: word, next)

/-- Whether a text starts with a backslash that hides a line break. -/
def startsEscapedBreak : List Char → Bool
  | '\\' :: c :: _ => isBreak c
  | _ => false

/-- Reads characters between double quotes up to a gap, a hidden line break or the
closing quote. -/
def doubleQuotedWord (began : Mark) : Nat → Cursor → Except Malformation (List Char × Cursor)
  | 0, cur => .ok ([], cur)
  | fuel + 1, cur =>
    match cur.rest with
    | [] => .ok ([], cur)
    | c :: _ =>
      if c == '"' || isGap c || startsEscapedBreak cur.rest then .ok ([], cur)
      else do
        let (d, next) ← if c == '\\' then readEscape began cur else .ok (c, cur.advance 1)
        let (word, next) ← doubleQuotedWord began fuel next
        return (d :: word, next)

/-- The quote of a style. -/
def quoteOf (style : ScalarStyle) : Char := if style = .singleQuoted then '\'' else '"'

/-- Reads a quoted scalar on, up to and past its closing quote. -/
def readQuoted (style : ScalarStyle) (began : Mark) :
    Nat → List Char → Cursor → Except Malformation (List Char × Cursor)
  | 0, _, cur => problemAt .unfinishedQuotes .quotedScalarText began cur
  | fuel + 1, text, cur =>
    if cur.atDocumentMarker then problemAt .markerInQuotes .quotedScalarText began cur
    else if cur.rest.isEmpty then problemAt .unfinishedQuotes .quotedScalarText began cur
    else do
      let (word, next) ←
        if style = .singleQuoted then .ok (singleQuotedWord (fuel + 1) cur)
        else doubleQuotedWord began (fuel + 1) cur
      let (gap, next) :=
        if style = .doubleQuoted && startsEscapedBreak next.rest then
          (Gap.escapedBreak, (next.advance 1).skipBreak)
        else (Gap.none, next)
      if startsWith (· == quoteOf style) next.rest then
        return (text ++ word, next.advance 1)
      else
        let (gap, after) := readGap none (fuel + 1) gap next
        readQuoted style began fuel (text ++ word ++ gap.fold) after

/-! ## Block scalars -/

/-- What happens to the line breaks at the end of a block scalar. -/
inductive Chomping where
  | strip
  | clip
  | keep
deriving DecidableEq, Repr

/-- Reads a chomping indicator. -/
def readChomping? (cur : Cursor) : Option (Chomping × Cursor) :=
  match cur.rest with
  | '+' :: _ => some (.keep, cur.advance 1)
  | '-' :: _ => some (.strip, cur.advance 1)
  | _ => none

/-- Reads an indentation indicator; zero is refused. -/
def readIncrement? (began : Mark) (cur : Cursor) : Except Malformation (Option (Nat × Cursor)) :=
  match cur.rest with
  | c :: _ =>
    if c == '0' then problemAt .zeroIndentation .blockScalar began cur
    else if c.isDigit then .ok (some (c.toNat - '0'.toNat, cur.advance 1))
    else .ok none
  | [] => .ok none

/-- Reads the indicators of a block scalar in either order. -/
def readBlockHeader (began : Mark) (cur : Cursor) :
    Except Malformation (Chomping × Option Nat × Cursor) := do
  match readChomping? cur with
  | some (chomping, cur) =>
    match ← readIncrement? began cur with
    | some (increment, cur) => return (chomping, some increment, cur)
    | none => return (chomping, none, cur)
  | none =>
    match ← readIncrement? began cur with
    | some (increment, cur) =>
      match readChomping? cur with
      | some (chomping, cur) => return (chomping, some increment, cur)
      | none => return (.clip, some increment, cur)
    | none => return (.clip, none, cur)

/-- The empty lines in front of a line of a block scalar. -/
structure EmptyLines where
  breaks : List Char
  widest : Nat
  stop : Mark
  cursor : Cursor

/-- Reads the indentation in front, and empty lines as long as they come. Indentation is
read up to a column, or as far as it goes when that is not known yet. -/
def readEmptyLines (began : Mark) (column : Option Nat) :
    Nat → EmptyLines → Except Malformation EmptyLines
  | 0, lines => .ok lines
  | fuel + 1, lines =>
    let spaces := (lines.cursor.rest.takeWhile (· == ' ')).length
    let wanted := match column with
      | none => spaces
      | some c => min spaces (c - lines.cursor.mark.column)
    let cur := lines.cursor.advance wanted
    let widest := max lines.widest cur.mark.column
    if column.all (cur.mark.column < ·) && startsWith (· == '\t') cur.rest then
      problemAt .tabInIndentation .blockScalar began cur
    else if startsWith isBreak cur.rest then
      let (kept, next) := cur.takeBreak
      readEmptyLines began column fuel
        { breaks := lines.breaks ++ kept, widest := widest, stop := next.mark, cursor := next }
    else .ok { lines with widest := widest, cursor := cur }

/-- Reads the lines of a block scalar that stand at its column. -/
def readBlockLines (folded : Bool) (began : Mark) (column : Nat) :
    Nat → List Char → List Char → Bool → EmptyLines →
      Except Malformation (List Char × List Char × EmptyLines)
  | 0, text, lastBreak, _, lines => .ok (text, lastBreak, lines)
  | fuel + 1, text, lastBreak, lastPadded, lines =>
    let cur := lines.cursor
    if cur.mark.column ≠ column || cur.rest.isEmpty then .ok (text, lastBreak, lines)
    else do
      let padded := startsWith isPad cur.rest
      let joint :=
        if folded && lastBreak = ['\n'] && !lastPadded && !padded then
          if lines.breaks.isEmpty then [' '] else []
        else lastBreak
      let line := cur.rest.takeWhile (!isBreak ·)
      let (kept, next) := (cur.advance line.length).takeBreak
      let further ← readEmptyLines began (some column) (fuel + 1)
        { breaks := [], widest := 0, stop := next.mark, cursor := next }
      readBlockLines folded began column fuel (text ++ joint ++ lines.breaks ++ line) kept padded
        further

/-- Reads a block scalar whose indicator is in front, below a given indentation and in a
text of so many characters at most: its text, where it ends, and the cursor. -/
def readBlock (folded : Bool) (indent : Int) (size : Nat) (start : Cursor) :
    Except Malformation (List Char × Mark × Cursor) := do
  let began := start.mark
  let (chomping, increment, cur) ← readBlockHeader began (start.advance 1)
  let cur := (cur.skipWhile isPad).skipComment
  if !startsBreak cur.rest then problemAt .noLineEnd .blockScalar began cur
  else
    let cur := cur.skipBreak
    let column := increment.map fun n => (max indent 0).toNat + n
    let lines ← readEmptyLines began column (size + 1)
      { breaks := [], widest := 0, stop := cur.mark, cursor := cur }
    let column := column.getD (max (max lines.widest (indent + 1).toNat) 1)
    let (text, lastBreak, lines) ←
      readBlockLines folded began column (size + 1) [] [] false lines
    let text := if chomping = .strip then text else text ++ lastBreak
    let text := if chomping = .keep then text ++ lines.breaks else text
    return (text, lines.stop, lines.cursor)

end PageManifest.Yaml
