import PageManifest.Text.Hex
import PageManifest.Text.Utf8
import PageManifest.Yaml.Token

/-!
# Names, tags and directives of a YAML text

The tokens that start with `&`, `*`, `!` or `%`.
-/

namespace PageManifest.Yaml

/-! ## Anchors -/

/-- Whether a name may end in front of a text. -/
def endsName : List Char → Bool
  | [] => true
  | c :: _ => isGap c || c == '?' || c == ':' || c == ',' || c == ']' || c == '}' || c == '%' ||
      c == '@' || c == '\x60'

/-- Reads the name of an anchor or an alias behind its indicator. -/
def readName (activity : Activity) (start : Cursor) : Except Malformation (String × Cursor) :=
  let cur := start.advance 1
  let name := cur.rest.takeWhile isNameChar
  let next := cur.advance name.length
  if name.isEmpty || !endsName next.rest then problemAt .noAnchorName activity start.mark next
  else .ok (String.ofList name, next)

/-! ## Tags -/

/-- Whether a character may stand in a tag. Some may only in the bracketed form. -/
def isTagChar (bracketed : Bool) (c : Char) : Bool :=
  isNameChar c || c == ';' || c == '/' || c == '?' || c == ':' || c == '@' || c == '&' ||
    c == '=' || c == '+' || c == '$' || c == '.' || c == '%' || c == '!' || c == '~' ||
    c == '*' || c == '\'' || c == '(' || c == ')' ||
    (bracketed && (c == ',' || c == '[' || c == ']'))

/-- How many bytes the character takes whose first byte is given; zero for no first
byte. -/
def octetCount (first : Nat) : Nat :=
  if first < 0x80 then 1
  else if first / 0x20 = 6 then 2
  else if first / 0x10 = 14 then 3
  else if first / 0x8 = 30 then 4
  else 0

/-- Reads one escaped byte. -/
def readOctet (activity : Activity) (began : Mark) (cur : Cursor) : Except Malformation (Nat × Cursor) :=
  match cur.rest with
  | '%' :: a :: b :: _ =>
    match Text.hexValue? a, Text.hexValue? b with
    | some a, some b => .ok (a * 16 + b, cur.advance 3)
    | _, _ => problemAt .noTagOctet activity began cur
  | _ => problemAt .noTagOctet activity began cur

/-- Reads the further escaped bytes of a character. The place of a wrong byte is in front
of it. -/
def readFurtherOctets (activity : Activity) (began : Mark) :
    Nat → Cursor → Except Malformation (List UInt8 × Cursor)
  | 0, cur => .ok ([], cur)
  | count + 1, cur => do
    let (octet, next) ← readOctet activity began cur
    if octet / 0x40 ≠ 2 then problemAt .badTrailingOctet activity began cur
    else
      let (octets, next) ← readFurtherOctets activity began count next
      return (UInt8.ofNat octet :: octets, next)

/-- Reads a character that is written by the bytes of its encoding. -/
def readOctets (activity : Activity) (began : Mark) (cur : Cursor) :
    Except Malformation (TagText × Cursor) := do
  let (first, next) ← readOctet activity began cur
  match octetCount first with
  | 0 => problemAt .badLeadingOctet activity began cur
  | count + 1 =>
    let (further, next) ← readFurtherOctets activity began count next
    let bytes := ByteArray.mk (UInt8.ofNat first :: further).toArray
    match Text.Utf8.decode? bytes with
    | some text => return (⟨text, true⟩, next)
    | none => return (⟨Text.Utf8.decodeLossy bytes, false⟩, next)

/-- Reads the characters of a tag. Its text ends in front of an escaped zero byte. -/
def readTagText (bracketed : Bool) (activity : Activity) (began : Mark) :
    Nat → Cursor → Except Malformation (TagText × Cursor)
  | 0, cur => .ok (⟨"", true⟩, cur)
  | fuel + 1, cur =>
    match cur.rest with
    | [] => .ok (⟨"", true⟩, cur)
    | c :: _ =>
      if !isTagChar bracketed c then .ok (⟨"", true⟩, cur)
      else do
        let (here, next) ←
          if c == '%' then readOctets activity began cur
          else .ok (⟨c.toString, true⟩, cur.advance 1)
        let (further, next) ← readTagText bracketed activity began fuel next
        return (if here.text == "\x00" then ⟨"", true⟩ else here.append further, next)

/-- Reads the text of a tag. There must be some unless something is in front of it. -/
def readTagUri (bracketed : Bool) (activity : Activity) (before : Bool) (began : Mark) (cur : Cursor) :
    Except Malformation (TagText × Cursor) := do
  let (text, next) ← readTagText bracketed activity began (cur.rest.length + 1) cur
  if !before && next.mark = cur.mark then problemAt .noTagText activity began next
  else return (text, next)

/-- Reads an exclamation mark, the name behind it, and a second mark if one follows. -/
def readHandle (activity : Activity) (began : Mark) (cur : Cursor) :
    Except Malformation (List Char × Cursor) :=
  match cur.rest with
  | '!' :: rest =>
    let name := rest.takeWhile isNameChar
    let next := cur.advance (name.length + 1)
    if startsWith (· == '!') next.rest then .ok ('!' :: name ++ ['!'], next.advance 1)
    else .ok ('!' :: name, next)
  | _ => problemAt .noTagMark activity began cur

/-- Whether a handle has a name or a second mark behind its first one, and ends in a
mark. -/
def isHandle (handle : List Char) : Bool := 1 < handle.length && handle.getLast? == some '!'

/-- Reads a tag, as a handle and the text behind it. -/
def readTag (inFlow : Bool) (start : Cursor) : Except Malformation (Token × Cursor) := do
  let began := start.mark
  let (token, next) ←
    match start.rest with
    | _ :: '<' :: _ => do
      let (text, next) ← readTagUri true .tag false began (start.advance 2)
      if startsWith (· == '>') next.rest then .ok (Token.tag "" text, next.advance 1)
      else problemAt .noTagClose .tagToken began next
    | _ => do
      let (handle, next) ← readHandle .tagToken began start
      if isHandle handle then do
        let (text, next) ← readTagUri false .tag false began next
        .ok (Token.tag (String.ofList handle) text, next)
      else do
        let (text, next) ← readTagUri false .tag true began next
        let suffix := TagText.append ⟨String.ofList (handle.drop 1), true⟩ text
        if suffix.text.isEmpty then .ok (Token.tag "" ⟨"!", true⟩, next)
        else .ok (Token.tag "!" suffix, next)
  if (inFlow && startsWith (· == ',') next.rest) || startsGap next.rest then return (token, next)
  else problemAt .noGapAfterTag .tagToken began next

/-! ## Directives -/

/-- The greatest number of digits in a version number. -/
def versionDigits : Nat := 9

/-- Reads a part of a version number. -/
def readVersionNumber (began : Mark) (cur : Cursor) : Except Malformation (Nat × Cursor) :=
  let digits := cur.rest.takeWhile Char.isDigit
  if versionDigits < digits.length then
    problemAt .longVersionNumber .versionDirective began (cur.advance versionDigits)
  else if digits.isEmpty then problemAt .noVersionNumber .versionDirective began cur
  else .ok (digits.foldl (fun n c => n * 10 + (c.toNat - '0'.toNat)) 0, cur.advance digits.length)

/-- Reads the value of a version directive. -/
def readVersion (began : Mark) (cur : Cursor) : Except Malformation (Token × Cursor) := do
  let (major, cur) ← readVersionNumber began (cur.skipWhile isPad)
  if !startsWith (· == '.') cur.rest then
    problemAt .noVersionPoint .versionDirective began cur
  else
    let (minor, cur) ← readVersionNumber began (cur.advance 1)
    return (.versionDirective major minor, cur)

/-- Reads the value of a tag directive. -/
def readTagDirective (began : Mark) (cur : Cursor) : Except Malformation (Token × Cursor) := do
  let (handle, cur) ← readHandle .tagDirectiveHandle began (cur.skipWhile isPad)
  if 1 < handle.length && !isHandle handle then
    problemAt .noTagHandleEnd .tagDirectiveHandleEnd began cur
  else if !startsWith isPad cur.rest then
    problemAt .noSpaceAfterHandle .tagDirective began cur
  else
    let (replacement, cur) ← readTagUri true .tagDirectivePrefix false began (cur.skipWhile isPad)
    if startsGap cur.rest then return (.tagDirective (String.ofList handle) replacement, cur)
    else problemAt .noGapAfterPrefix .tagDirective began cur

/-- Reads a directive up to the end of its line: its token, where that ends, and the
cursor on the next line. -/
def readDirective (start : Cursor) : Except Malformation (Token × Mark × Cursor) := do
  let began := start.mark
  let cur := start.advance 1
  let name := cur.rest.takeWhile isNameChar
  let cur := cur.advance name.length
  if name.isEmpty then problemAt .noDirectiveName .directive began cur
  else if !startsGap cur.rest then problemAt .badDirectiveName .directive began cur
  else
    let (token, cur) ←
      if name = ['Y', 'A', 'M', 'L'] then readVersion began cur
      else if name = ['T', 'A', 'G'] then readTagDirective began cur
      else problemAt .unknownDirective .directive began cur
    let line := (cur.skipWhile isPad).skipComment
    if startsBreak line.rest then return (token, cur.mark, line.skipBreak)
    else problemAt .noLineEnd .directive began line

end PageManifest.Yaml
