import PageManifest.Yaml.Scalar
import PageManifest.Yaml.Tag

/-!
# From text to tokens

The lexer cuts a text into tokens and adds those that indentation stands for. A token
that may turn out to be a key is remembered (`PendingKey`); when a colon follows on the
same line and not too far away, the key token is put in front of it, and so is the start
of a block mapping if the key is indented further than what encloses it.

`scan` gives the tokens of a whole text and, if the text is wrong, what is wrong behind
them. A token that may still become a key is not among the tokens in front of a
malformation.
-/

namespace PageManifest.Yaml

/-- A token that may turn out to be a key: its number and place, and whether nothing else
can stand there. -/
structure PendingKey where
  number : Nat
  mark : Mark
  required : Bool
deriving Repr

/-- How many bytes a key may reach. -/
def keyReach : Nat := 1024

/-- The state of cutting a text into tokens. -/
structure Lexer where
  cursor : Cursor
  /-- How many characters the text has. -/
  size : Nat
  /-- The column of the innermost block collection, `-1` outside all of them. -/
  indent : Int
  /-- The columns of the enclosing block collections. -/
  outerIndents : List Int
  /-- The pending key at the current flow level. -/
  pending : Option PendingKey
  /-- The pending keys of the enclosing levels; its length is the flow level. -/
  outerPending : List (Option PendingKey)
  /-- Whether a key may start here. -/
  keyAllowed : Bool
  /-- The tokens so far, the last one first. -/
  lexemes : List Lexeme
  /-- How many tokens there are. -/
  count : Nat

namespace Lexer

/-- The state in front of a text. -/
def start (text : List Char) : Lexer :=
  { cursor := .start text
    size := text.length
    indent := -1
    outerIndents := []
    pending := none
    outerPending := []
    keyAllowed := true
    lexemes := [⟨.streamStart, .origin, .origin⟩]
    count := 1 }

/-- Whether the text is inside brackets. -/
def inFlow (lx : Lexer) : Bool := !lx.outerPending.isEmpty

/-- The current place. -/
def mark (lx : Lexer) : Mark := lx.cursor.mark

/-- Adds a token at the end. -/
def push (lx : Lexer) (token : Token) (start stop : Mark) : Lexer :=
  { lx with lexemes := ⟨token, start, stop⟩ :: lx.lexemes, count := lx.count + 1 }

/-- Adds a token without text in front of the one with a given number. -/
def insertAt (lx : Lexer) (number : Nat) (token : Token) (mark : Mark) : Lexer :=
  let back := lx.count - number
  { lx with
    lexemes := lx.lexemes.take back ++ ⟨token, mark, mark⟩ :: lx.lexemes.drop back
    count := lx.count + 1 }

/-! ## Pending keys -/

/-- Whether a pending key cannot be followed by its colon any more. -/
def isStale (here : Mark) (key : PendingKey) : Bool :=
  key.mark.line < here.line || key.mark.index + keyReach < here.index

/-- Gives up a key, unless nothing but a key can stand there. -/
def giveUp (cur : Cursor) (key : Option PendingKey) : Except Malformation (Option PendingKey) :=
  match key with
  | some key =>
    if key.required then problemAt .noColonAfterKey .simpleKey key.mark cur else .ok none
  | none => .ok none

/-- Gives up a key if it is stale. -/
def refresh (cur : Cursor) (key : Option PendingKey) : Except Malformation (Option PendingKey) :=
  match key with
  | some k => if isStale cur.mark k then giveUp cur key else .ok key
  | none => .ok none

/-- Gives up the keys that are stale, the outermost first. -/
def dropStale (lx : Lexer) : Except Malformation Lexer := do
  let outer ← lx.outerPending.reverse.mapM (refresh lx.cursor)
  let pending ← refresh lx.cursor lx.pending
  return { lx with pending := pending, outerPending := outer.reverse }

/-- Gives up the pending key of the current level. -/
def dropKey (lx : Lexer) : Except Malformation Lexer := do
  return { lx with pending := ← giveUp lx.cursor lx.pending }

/-- Notes that the next token may be a key. -/
def noteKey (lx : Lexer) : Except Malformation Lexer :=
  if lx.keyAllowed then do
    let lx ← lx.dropKey
    return { lx with
      pending := some
        { number := lx.count
          mark := lx.mark
          required := !lx.inFlow && lx.indent == lx.mark.column } }
  else .ok lx

/-! ## Indentation -/

/-- Starts a block collection if the column is further right than the current one. Its
token goes in front of a numbered one, or to the end. -/
def indentTo (lx : Lexer) (column : Nat) (number : Option Nat) (token : Token) (mark : Mark) :
    Lexer :=
  if lx.inFlow || (column : Int) ≤ lx.indent then lx
  else
    let lx := { lx with indent := column, outerIndents := lx.indent :: lx.outerIndents }
    match number with
    | some n => lx.insertAt n token mark
    | none => lx.push token mark mark

/-- Ends the block collections further right than a column. -/
def closeBlocks (column : Int) (mark : Mark) :
    Int → List Int → List Lexeme → Nat → Int × List Int × List Lexeme × Nat
  | indent, [], lexemes, count => (indent, [], lexemes, count)
  | indent, outer :: rest, lexemes, count =>
    if column < indent then
      closeBlocks column mark outer rest (⟨.blockEnd, mark, mark⟩ :: lexemes) (count + 1)
    else (indent, outer :: rest, lexemes, count)

/-- Ends the block collections further right than a column, outside brackets. -/
def dedentTo (lx : Lexer) (column : Int) : Lexer :=
  if lx.inFlow then lx
  else
    let (indent, outer, lexemes, count) :=
      closeBlocks column lx.mark lx.indent lx.outerIndents lx.lexemes lx.count
    { lx with indent := indent, outerIndents := outer, lexemes := lexemes, count := count }

/-! ## Gaps -/

/-- Skips spaces, comments and line breaks in front of a token. Tabs are skipped where no
key may start. A byte order mark at the start of a line is skipped too and takes a
column. -/
def skipGaps : Nat → Lexer → Lexer
  | 0, lx => lx
  | fuel + 1, lx =>
    let cur := lx.cursor
    let cur :=
      if cur.mark.column == 0 && startsWith (· == '\uFEFF') cur.rest then cur.advance 1 else cur
    let tabs := lx.inFlow || !lx.keyAllowed
    let cur := (cur.skipWhile fun c => c == ' ' || (tabs && c == '\t')).skipComment
    if startsWith isBreak cur.rest then
      skipGaps fuel { lx with cursor := cur.skipBreak, keyAllowed := lx.keyAllowed || !lx.inFlow }
    else { lx with cursor := cur }

/-! ## Tokens -/

/-- Adds a token of the next few characters. -/
def pushNext (lx : Lexer) (token : Token) (count : Nat) : Lexer :=
  let next := lx.cursor.advance count
  { lx.push token lx.mark next.mark with cursor := next }

/-- The end of the text. It counts as the start of a line. -/
def readEnd (lx : Lexer) : Except Malformation Lexer := do
  let m := lx.mark
  let m := if m.column = 0 then m else { m with line := m.line + 1, column := 0 }
  let lx := { lx with cursor := { lx.cursor with mark := m } }
  let lx ← (lx.dedentTo (-1)).dropKey
  return { lx with keyAllowed := false }.push .streamEnd m m

/-- A directive. -/
def readDirectiveToken (lx : Lexer) : Except Malformation Lexer := do
  let lx ← (lx.dedentTo (-1)).dropKey
  let (token, stop, next) ← readDirective lx.cursor
  return { lx.push token lx.mark stop with cursor := next, keyAllowed := false }

/-- A document marker. -/
def readMarker (lx : Lexer) (token : Token) : Except Malformation Lexer := do
  let lx ← (lx.dedentTo (-1)).dropKey
  return { lx with keyAllowed := false }.pushNext token 3

/-- An opening bracket. -/
def readOpening (lx : Lexer) (token : Token) : Except Malformation Lexer := do
  let lx ← lx.noteKey
  let lx := { lx with outerPending := lx.pending :: lx.outerPending, pending := none }
  return { lx with keyAllowed := true }.pushNext token 1

/-- A closing bracket. -/
def readClosing (lx : Lexer) (token : Token) : Except Malformation Lexer := do
  let lx ← lx.dropKey
  let lx := match lx.outerPending with
    | key :: outer => { lx with pending := key, outerPending := outer }
    | [] => lx
  return { lx with keyAllowed := false }.pushNext token 1

/-- A comma between brackets. -/
def readFlowEntry (lx : Lexer) : Except Malformation Lexer := do
  let lx ← lx.dropKey
  return { lx with keyAllowed := true }.pushNext .flowEntry 1

/-- A problem in front of the next token, outside of any activity. -/
def problemHere {α : Type} (lx : Lexer) (problem : Problem) : Except Malformation α :=
  .error (.faulty problem lx.mark none)

/-- The dash of a block sequence. -/
def readBlockEntry (lx : Lexer) : Except Malformation Lexer := do
  if !lx.inFlow && !lx.keyAllowed then lx.problemHere .sequenceEntryHere
  else
    let lx := lx.indentTo lx.mark.column none .blockSequenceStart lx.mark
    let lx ← lx.dropKey
    return { lx with keyAllowed := true }.pushNext .blockEntry 1

/-- The question mark in front of a key. -/
def readKey (lx : Lexer) : Except Malformation Lexer := do
  if !lx.inFlow && !lx.keyAllowed then lx.problemHere .mappingKeyHere
  else
    let lx := lx.indentTo lx.mark.column none .blockMappingStart lx.mark
    let lx ← lx.dropKey
    return { lx with keyAllowed := !lx.inFlow }.pushNext .key 1

/-- The colon in front of a value. If a token is waiting to become a key, it does. -/
def readValue (lx : Lexer) : Except Malformation Lexer :=
  match lx.pending with
  | some key =>
    let lx := lx.insertAt key.number .key key.mark
    let lx := lx.indentTo key.mark.column (some key.number) .blockMappingStart key.mark
    .ok ({ lx with pending := none, keyAllowed := false }.pushNext .value 1)
  | none =>
    if !lx.inFlow && !lx.keyAllowed then lx.problemHere .mappingValueHere
    else
      let lx := lx.indentTo lx.mark.column none .blockMappingStart lx.mark
      .ok ({ lx with keyAllowed := !lx.inFlow }.pushNext .value 1)

/-- An anchor or an alias. -/
def readAnchor (lx : Lexer) (activity : Activity) (token : String → Token) :
    Except Malformation Lexer := do
  let lx ← lx.noteKey
  let (name, next) ← readName activity lx.cursor
  return { lx.push (token name) lx.mark next.mark with cursor := next, keyAllowed := false }

/-- A tag. -/
def readTagToken (lx : Lexer) : Except Malformation Lexer := do
  let lx ← lx.noteKey
  let (token, next) ← readTag lx.inFlow lx.cursor
  return { lx.push token lx.mark next.mark with cursor := next, keyAllowed := false }

/-- A block scalar. -/
def readBlockScalar (lx : Lexer) (style : ScalarStyle) : Except Malformation Lexer := do
  let lx ← lx.dropKey
  let (text, stop, next) ← readBlock (style = .folded) lx.indent lx.size lx.cursor
  return { lx.push (.scalar (String.ofList text) style) lx.mark stop with
    cursor := next, keyAllowed := true }

/-- A quoted scalar. -/
def readQuotedScalar (lx : Lexer) (style : ScalarStyle) : Except Malformation Lexer := do
  let lx ← lx.noteKey
  let (text, next) ← readQuoted style lx.mark (lx.size + 1) [] (lx.cursor.advance 1)
  return { lx.push (.scalar (String.ofList text) style) lx.mark next.mark with
    cursor := next, keyAllowed := false }

/-- A plain scalar. If it leaves its line, a key may start behind it. -/
def readPlainScalar (lx : Lexer) : Except Malformation Lexer := do
  let lx ← lx.noteKey
  let found ← readPlain lx.inFlow (lx.indent + 1).toNat lx.mark (lx.size + 1) []
    lx.mark Gap.none lx.cursor
  return { lx.push (.scalar (String.ofList found.text) .plain) lx.mark found.stop with
    cursor := found.cursor, keyAllowed := found.lineLeft }

/-- Whether a plain scalar may start in front of a text. -/
def startsPlain (inFlow : Bool) : List Char → Bool
  | [] => false
  | c :: rest =>
    if isGap c then false
    else if c == '-' then !startsWith isPad rest
    else if c == '?' || c == ':' then !inFlow && !startsGap rest
    else !(c == ',' || c == '[' || c == ']' || c == '{' || c == '}' || c == '#' || c == '&' ||
      c == '*' || c == '!' || c == '|' || c == '>' || c == '\'' || c == '"' || c == '%' ||
      c == '@' || c == '\x60')

/-- Reads the token in front, the gaps having been skipped. -/
def readToken (lx : Lexer) : Except Malformation Lexer :=
  let inFlow := lx.inFlow
  match lx.cursor.rest with
  | [] => lx.readEnd
  | c :: rest =>
    if lx.mark.column == 0 && c == '%' then lx.readDirectiveToken
    else if lx.mark.column == 0 && startsIndicator '-' (c :: rest) then lx.readMarker .documentStart
    else if lx.mark.column == 0 && startsIndicator '.' (c :: rest) then lx.readMarker .documentEnd
    else if c == '[' then lx.readOpening .flowSequenceStart
    else if c == '{' then lx.readOpening .flowMappingStart
    else if c == ']' then lx.readClosing .flowSequenceEnd
    else if c == '}' then lx.readClosing .flowMappingEnd
    else if c == ',' then lx.readFlowEntry
    else if c == '-' && startsGap rest then lx.readBlockEntry
    else if c == '?' && (inFlow || startsGap rest) then lx.readKey
    else if c == ':' && (inFlow || startsGap rest) then lx.readValue
    else if c == '*' then lx.readAnchor .alias .alias
    else if c == '&' then lx.readAnchor .anchor .anchor
    else if c == '!' then lx.readTagToken
    else if c == '|' && !inFlow then lx.readBlockScalar .literal
    else if c == '>' && !inFlow then lx.readBlockScalar .folded
    else if c == '\'' then lx.readQuotedScalar .singleQuoted
    else if c == '"' then lx.readQuotedScalar .doubleQuoted
    else if startsPlain inFlow (c :: rest) then lx.readPlainScalar
    else problemAt .noTokenStartsSo .nextToken lx.mark lx.cursor

/-- Whether the text has ended. -/
def ended (lx : Lexer) : Bool :=
  match lx.lexemes with
  | last :: _ => last.token == .streamEnd
  | [] => false

/-- Reads the next token with the gap in front of it. -/
def step (lx : Lexer) : Except Malformation Lexer := do
  let lx ← (skipGaps (lx.size + 1) lx).dropStale
  (lx.dedentTo lx.mark.column).readToken

/-- How many tokens are settled: those in front of every token that may become a key. -/
def settled (lx : Lexer) : Nat :=
  (lx.pending :: lx.outerPending).foldl
    (fun n key => match key with
      | some key => min n key.number
      | none => n) lx.count

end Lexer

/-- The tokens of a text, and what is wrong behind them. -/
structure Tokens where
  lexemes : List Lexeme
  fault : Option Malformation

/-- The tokens in front of a malformation. -/
def Lexer.stopped (lx : Lexer) (fault : Malformation) : Tokens :=
  ⟨lx.lexemes.reverse.take lx.settled, some fault⟩

/-- Where a text is cut short: what is wrong behind the cut, and the first place that is
too close to it for looking ahead. -/
structure Cut where
  fault : Malformation
  index : Nat

/-- How many characters the lexer looks ahead. -/
def lookahead : Nat := 4

/-- The cut at the end of some characters. -/
def Cut.behind (chars : List Char) (fault : Malformation) : Cut :=
  ⟨fault, byteCount (chars.take (chars.length + 1 - lookahead))⟩

/-- What is wrong behind a cut, if a place is too close to it. -/
def Cut.fault? (cut : Option Cut) (mark : Mark) : Option Malformation :=
  match cut with
  | some cut => if cut.index ≤ mark.index then some cut.fault else none
  | none => none

/-- Reads tokens until the end of the text. If the text is cut short by a forbidden
character, reading stops as soon as that would be looked at, and what seems wrong so close
to the cut is not. -/
def Lexer.run (cut : Option Cut) : Nat → Lexer → Tokens
  | 0, lx => ⟨lx.lexemes.reverse, cut.map Cut.fault⟩
  | fuel + 1, lx =>
    match Cut.fault? cut lx.mark with
    | some fault => lx.stopped fault
    | none =>
      match lx.step with
      | .error fault => lx.stopped ((fault.mark?.bind (Cut.fault? cut)).getD fault)
      | .ok next =>
        match Cut.fault? cut next.mark with
        | some fault => lx.stopped fault
        | none =>
          if next.ended then ⟨next.lexemes.reverse, none⟩
          else
            match next.dropStale with
            | .error fault => next.stopped fault
            | .ok next => next.run cut fuel

/-- How many bytes are looked at together. -/
def chunkSize : Nat := 16384

/-- Cuts a text in front of the chunk with its first forbidden character: the characters
in front, and the offset of that character. -/
def cutForbidden : Nat → Nat → List Char → List Char → List Char × Option Nat
  | _, _, chunk, [] => (chunk.reverse, none)
  | start, offset, chunk, c :: rest =>
    if !isAllowed c then ([], some offset)
    else if chunkSize < offset + c.utf8Size - start then
      let (text, found) := cutForbidden offset (offset + c.utf8Size) [c] rest
      (chunk.reverse ++ text, found)
    else cutForbidden start (offset + c.utf8Size) (c :: chunk) rest

/-- The tokens of a text. -/
def scan (text : String) : Tokens :=
  let (chars, found) := cutForbidden 0 0 [] text.toList
  let cut := found.map fun offset => Cut.behind chars (.forbiddenCharacter offset)
  if chars.isEmpty && found.isSome then ⟨[], cut.map Cut.fault⟩
  else (Lexer.start chars).run cut (chars.length + 2)

end PageManifest.Yaml
