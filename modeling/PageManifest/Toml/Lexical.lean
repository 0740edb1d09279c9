import PageManifest.Text.Hex
import PageManifest.Toml.Attempt

/-!
# Blanks, strings and keys of settings files

The parts of a settings file that hold no other parts.
-/

namespace PageManifest.Toml

/-! ## Blanks and comments -/

/-- Whether a character is a blank within a line. -/
def isBlank (c : Char) : Bool := c == ' ' || c == '\t'

/-- The characters after the blanks in front. -/
def skipBlanks (cs : List Char) : List Char := cs.dropWhile isBlank

/-- Reads a line break. A carriage return alone is half of one, and reading stops behind
it. -/
def lineBreak (cs : List Char) : Except Failure (List Char) :=
  match cs with
  | '\n' :: rest => .ok rest
  | '\r' :: '\n' :: rest => .ok rest
  | '\r' :: rest => stop rest
  | _ => stop cs

/-- Reads a line break or the end of the text. -/
def lineEnd (cs : List Char) : Except Failure (List Char) :=
  orTry (lineBreak cs) (if cs.isEmpty then .ok cs else stop cs)

/-- Whether a character may stand in a comment. -/
def isCommentChar (c : Char) : Bool := c == '\t' || (0x20 ≤ c.toNat && c.toNat != 0x7F)

/-- The characters after a comment, if one is in front. -/
def skipComment (cs : List Char) : List Char :=
  match cs with
  | '#' :: rest => rest.dropWhile isCommentChar
  | _ => cs

/-- Reads what may follow on a line: blanks, a comment and the line's end. -/
def restOfLine (cs : List Char) : Except Failure (List Char) :=
  expecting ["newline", "\x60#\x60"] (lineEnd (skipComment (skipBlanks cs)))

/-- Reads blanks, comments and line breaks, bounded by a number of steps. -/
def blankLinesWithin : Nat → List Char → Except Failure (List Char)
  | 0, cs => .ok cs
  | fuel + 1, cs =>
    match skipBlanks cs with
    | '#' :: rest => do blankLinesWithin fuel (← lineBreak (skipComment ('#' :: rest)))
    | '\n' :: rest => blankLinesWithin fuel rest
    | '\r' :: rest => do blankLinesWithin fuel (← lineBreak ('\r' :: rest))
    | rest => .ok rest

/-- Reads blanks, comments and line breaks. -/
def blankLines (cs : List Char) : Except Failure (List Char) := blankLinesWithin (cs.length + 1) cs

/-! ## Strings between double quotes -/

/-- Whether a character stands for itself between double quotes. -/
def isQuotedChar (c : Char) : Bool :=
  c == '\t' || (0x20 ≤ c.toNat && c != '"' && c != '\\' && c.toNat != 0x7F)

/-- The character that a letter stands for behind a backslash. -/
def shortEscape? : Char → Option Char
  | 'b' => some '\x08'
  | 'f' => some '\x0c'
  | 'n' => some '\n'
  | 'r' => some '\r'
  | 't' => some '\t'
  | '\\' => some '\\'
  | '"' => some '"'
  | _ => none

/-- The marks of all escapes. -/
def escapeMarks : List String :=
  ["\x60b\x60", "\x60f\x60", "\x60n\x60", "\x60r\x60", "\x60t\x60", "\x60u\x60", "\x60U\x60",
    "\x60\\\x60", "\x60\"\x60"]

/-- Whether a number belongs to a character. -/
def isCharNumber (n : Nat) : Bool := n < 0xD800 || (0xDFFF < n && n < 0x110000)

/-- Reads the number of a character in a count of hexadecimal digits. -/
def charNumber (count : Nat) (cs : List Char) : Except Failure (Char × List Char) :=
  naming ("unicode " ++ toString count ++ "-digit hex code") <|
    match Text.hexNumber? count 0 cs with
    | some n =>
      if isCharNumber n then .ok (Char.ofNat n, cs.drop count) else refuse cs .outOfRange
    | none => commit (stop cs)

/-- Reads an escape behind its backslash. -/
def escape (c : Char) (rest : List Char) : Except Failure (Char × List Char) :=
  match c with
  | 'u' => charNumber 4 rest
  | 'U' => charNumber 8 rest
  | c =>
    match shortEscape? c with
    | some d => .ok (d, rest)
    | none =>
      naming "escape sequence" <| expecting escapeMarks <|
        commit (stop (if c.utf8Size = 1 then rest else c :: rest))

/-- Reads characters up to one that cannot stand on a line between double quotes. -/
def quotedChars : Nat → List Char → Except Failure (List Char × List Char)
  | 0, cs => .ok ([], cs)
  | fuel + 1, cs =>
    match cs with
    | '\\' :: c :: rest => do
      let (d, rest) ← escape c rest
      let (text, rest) ← quotedChars fuel rest
      return (d :: text, rest)
    | c :: rest =>
      if isQuotedChar c then do
        let (text, rest) ← quotedChars fuel rest
        return (c :: text, rest)
      else .ok ([], cs)
    | [] => .ok ([], [])

/-- Reads a string on one line behind its opening quote. -/
def quoted (cs : List Char) : Except Failure (List Char × List Char) := do
  let (text, rest) ← quotedChars cs.length cs
  let rest ← naming "basic string" (commit (char '"' rest))
  return (text, rest)

/-- Passes over blanks and line breaks. -/
def skipLayout : Nat → List Char → List Char
  | 0, cs => cs
  | fuel + 1, cs =>
    match skipBlanks cs with
    | '\n' :: rest => skipLayout fuel rest
    | '\r' :: '\n' :: rest => skipLayout fuel rest
    | rest => rest

/-- Reads characters up to one that cannot stand between three double quotes; a quote is
not read. -/
def quotedLineChars : Nat → List Char → Except Failure (List Char × List Char)
  | 0, cs => .ok ([], cs)
  | fuel + 1, cs =>
    match cs with
    | '\\' :: c :: rest =>
      match lineBreak (skipBlanks (c :: rest)) with
      | .ok rest => quotedLineChars fuel (skipLayout rest.length rest)
      | .error _ => do
        let (d, rest) ← escape c rest
        let (text, rest) ← quotedLineChars fuel rest
        return (d :: text, rest)
    | '\n' :: rest | '\r' :: '\n' :: rest => do
      let (text, rest) ← quotedLineChars fuel rest
      return ('\n' :: text, rest)
    | c :: rest =>
      if isQuotedChar c then do
        let (text, rest) ← quotedLineChars fuel rest
        return (c :: text, rest)
      else .ok ([], cs)
    | [] => .ok ([], [])

/-- How many times a mark stands in front of a text. -/
def leading (mark : Char) (cs : List Char) : Nat := (cs.takeWhile (· = mark)).length

/-- How many marks within a text come before another character: one or two, and none
before the end of the text. -/
def innerMarks (mark : Char) (cs : List Char) : Nat :=
  let count := leading mark cs
  if count ≤ 2 && count < cs.length then count else 0

/-- How many marks at the end of a text come before the three that close it: at most
two. -/
def outerMarks (mark : Char) (cs : List Char) : Nat := min 2 (leading mark cs - 3)

/-- Reads the body of a string between three double quotes. -/
def quotedBody : Nat → List Char → Except Failure (List Char × List Char)
  | 0, cs => .ok ([], cs)
  | fuel + 1, cs => do
    let (text, rest) ← quotedLineChars cs.length cs
    let inner := innerMarks '"' rest
    if inner = 0 then
      let outer := outerMarks '"' rest
      return (text ++ List.replicate outer '"', rest.drop outer)
    else
      let behind := rest.drop inner
      let (further, after) ← quotedBody fuel behind
      return (text ++ List.replicate inner '"' ++ further, after)

/-- Reads a string on several lines behind its opening quotes. -/
def quotedLines (cs : List Char) : Except Failure (List Char × List Char) :=
  naming "multiline basic string" <| commit do
    let cs := (lineBreak cs).toOption.getD cs
    let (text, rest) ← quotedBody (cs.length + 1) cs
    let rest ← word ['"', '"', '"'] rest
    return (text, rest)

/-! ## Strings between apostrophes -/

/-- Whether a character may stand between apostrophes. -/
def isLiteralChar (c : Char) : Bool :=
  c == '\t' || (0x20 ≤ c.toNat && c != '\'' && c.toNat != 0x7F)

/-- Reads a string on one line behind its opening apostrophe. -/
def literal (cs : List Char) : Except Failure (List Char × List Char) :=
  naming "literal string" <| commit do
    let rest ← char '\'' (cs.dropWhile isLiteralChar)
    return (cs.takeWhile isLiteralChar, rest)

/-- Reads characters up to one that cannot stand between three apostrophes; an apostrophe
is not read. -/
def literalLineChars : List Char → List Char × List Char
  | '\n' :: rest =>
    let (text, rest) := literalLineChars rest
    ('\n' :: text, rest)
  | '\r' :: '\n' :: rest =>
    let (text, rest) := literalLineChars rest
    ('\n' :: text, rest)
  | c :: rest =>
    if isLiteralChar c then
      let (text, rest) := literalLineChars rest
      (c :: text, rest)
    else ([], c :: rest)
  | [] => ([], [])

/-- Reads the body of a string between three apostrophes. -/
def literalBody : Nat → List Char → List Char × List Char
  | 0, cs => ([], cs)
  | fuel + 1, cs =>
    let (text, rest) := literalLineChars cs
    let inner := innerMarks '\'' rest
    let behind := rest.drop inner
    if inner = 0 || (literalLineChars behind).2.length = behind.length then
      let outer := outerMarks '\'' rest
      (text ++ List.replicate outer '\'', rest.drop outer)
    else
      let (further, after) := literalBody fuel behind
      (text ++ List.replicate inner '\'' ++ further, after)

/-- Reads a string on several lines behind its opening apostrophes. -/
def literalLines (cs : List Char) : Except Failure (List Char × List Char) :=
  naming "multiline literal string" <| commit do
    let cs := (lineBreak cs).toOption.getD cs
    let (text, rest) := literalBody (cs.length + 1) cs
    let rest ← word ['\'', '\'', '\''] rest
    return (text, rest)

/-- Reads a string. -/
def string (cs : List Char) : Except Failure (List Char × List Char) :=
  match cs with
  | '"' :: '"' :: '"' :: rest => quotedLines rest
  | '"' :: rest => quoted rest
  | '\'' :: '\'' :: '\'' :: rest => literalLines rest
  | '\'' :: rest => literal rest
  | _ => stop cs

/-! ## Keys -/

/-- The greatest number of parts of a dotted key, and depth of arrays and tables, plus
one. -/
def depthLimit : Nat := 80

/-- Reads one part of a key. -/
def keyPart (cs : List Char) : Except Failure (Key × List Char) := do
  let (text, rest) ←
    match cs with
    | '"' :: rest => quoted rest
    | '\'' :: rest => literal rest
    | c :: _ =>
      if isBareKeyChar c then .ok (cs.takeWhile isBareKeyChar, cs.dropWhile isBareKeyChar)
      else stop cs
    | [] => stop cs
  return (⟨String.ofList text, stretchTo cs rest⟩, rest)

/-- Reads further parts of a key, each behind a point. -/
def keyParts : Nat → List Char → Except Failure (List Key × List Char)
  | 0, cs => .ok ([], cs)
  | fuel + 1, cs =>
    match cs with
    | '.' :: rest => do
      match ← optional (keyPart (skipBlanks rest)) with
      | some (key, rest) =>
        let (keys, rest) ← keyParts fuel (skipBlanks rest)
        return (key :: keys, rest)
      | none => return ([], cs)
    | _ => .ok ([], cs)

/-- Reads a dotted key with blanks around its parts. -/
def dottedKey (cs : List Char) : Except Failure (List Key × List Char) := do
  let (keys, rest) ← naming "key" do
    let (key, rest) ← keyPart (skipBlanks cs)
    let (keys, rest) ← keyParts rest.length (skipBlanks rest)
    return (key :: keys, rest)
  if depthLimit ≤ keys.length then .error { rest := cs, isFinal := false, cause := some .tooDeep }
  else return (keys, rest)

/-- Reads the mark between a key and its value. -/
def equalsSign (cs : List Char) : Except Failure (List Char) :=
  expecting ["\x60.\x60", "\x60=\x60"] (commit (char '=' cs))

end PageManifest.Toml
