import PageManifest.Toml.Lexical
import PageManifest.Toml.Number
import PageManifest.Toml.Table

/-!
# Reading settings files

`read` gives the entries of a settings file in order. Arrays and tables between braces
nest less than `depthLimit` deep.
-/

namespace PageManifest.Toml

/-! ## Values -/

/-- The marks of strings, expected where no value can start. -/
def stringMarks : List String := ["\x60\"\x60", "\x60'\x60"]

/-- Stops where a string was expected. -/
def stringExpected {α : Type} (cs : List Char) : Except Failure α :=
  naming "string" (expecting stringMarks (stop cs))

/-- Reads a word that stands for a value. -/
def valueWord (word : String) (item : Stretch → Item) (isFinal : Bool) (cs : List Char) :
    Except Failure (Item × List Char) :=
  naming "string" <| expecting stringMarks <|
    match Toml.word word.toList cs with
    | .ok rest => .ok (item (stretchTo cs rest), rest)
    | .error failure => .error { failure with isFinal }

/-- Reads a value that starts with a sign or a digit. -/
def numeric (cs : List Char) : Except Failure (Item × List Char) :=
  orTry
    (do
      let rest ← moment cs
      return (.moment (stretchTo cs rest), rest)) <|
  orTry
    (do
      let (x, rest) ← float cs
      return (.float (stretchTo cs rest) x, rest))
    (do
      let (n, rest) ← integer cs
      return (.integer (stretchTo cs rest) n, rest))

/-- Reads a value that is neither an array nor a table. -/
def scalar (cs : List Char) : Except Failure (Item × List Char) :=
  match cs with
  | [] => stop cs
  | c :: _ =>
    if c = '"' || c = '\'' then do
      let (text, rest) ← string cs
      return (.string (stretchTo cs rest) (String.ofList text), rest)
    else if c = '+' || c = '-' || c.isDigit then numeric cs
    else if c = '_' then do
      let (n, rest) ← expecting ["leading digit"] (integer cs)
      return (.integer (stretchTo cs rest) n, rest)
    else if c = '.' then do
      let (x, rest) ← expecting ["leading digit"] (float cs)
      return (.float (stretchTo cs rest) x, rest)
    else if c = 't' then valueWord "true" (.boolean · true) true cs
    else if c = 'f' then valueWord "false" (.boolean · false) true cs
    else if c = 'i' then valueWord "inf" (.float · (.infinity false)) false cs
    else if c = 'n' then valueWord "nan" (.float · .nan) false cs
    else stringExpected cs

/-- A key in its table, and the item that it gets. -/
abbrev Assignment := List Key × Key × Item

/-- The entries that assignments between braces give. -/
def bracedEntries (assignments : List Assignment) : Except Cause Entries :=
  assignments.foldlM (fun entries (path, key, item) => putItem .braced none path key item entries) []

/-- Splits a dotted key into the table's part and the last one. -/
def splitKey (keys : List Key) (default : Key) : List Key × Key :=
  (keys.dropLast, keys.getLast?.getD default)

mutual

/-- Reads a value within a number of enclosing arrays and tables. -/
def value : Nat → Nat → List Char → Except Failure (Item × List Char)
  | 0, _, cs => stop cs
  | fuel + 1, depth, cs =>
    match cs with
    | '[' :: rest =>
      if depthLimit ≤ depth + 1 then refuse cs .tooDeep
      else do
        let (items, rest) ← commit (arrayItems fuel (depth + 1) true rest)
        let rest ← naming "array" (expecting ["\x60]\x60"] (commit (char ']' rest)))
        return (.array (stretchTo cs rest) items, rest)
    | '{' :: rest =>
      if depthLimit ≤ depth + 1 then refuse cs .tooDeep
      else do
        let (assignments, behind) ← commit (assignments fuel (depth + 1) true rest)
        match bracedEntries assignments with
        | .error cause => refuse rest cause
        | .ok entries =>
          let behind ← naming "inline table"
            (expecting ["\x60\x7d\x60"] (commit (char '}' (skipBlanks behind))))
          return (.table .inline (some (stretchTo cs behind)) entries, behind)
    | _ => scalar cs

/-- Reads the items of an array that are left, and what stands before its end. -/
def arrayItems : Nat → Nat → Bool → List Char → Except Failure (List Item × List Char)
  | 0, _, _, cs => stop cs
  | fuel + 1, depth, first, cs => do
    let behind? := if first then some cs else (char ',' cs).toOption
    match behind? with
    | none => return ([], ← blankLines cs)
    | some behind =>
      let item := do
        let (item, rest) ← value fuel depth (← blankLines behind)
        return (item, ← blankLines rest)
      match ← optional item with
      | some (item, rest) =>
        let (items, rest) ← arrayItems fuel depth false rest
        return (item :: items, rest)
      | none => return ([], ← blankLines behind)

/-- Reads the assignments between braces that are left. -/
def assignments : Nat → Nat → Bool → List Char → Except Failure (List Assignment × List Char)
  | 0, _, _, cs => stop cs
  | fuel + 1, depth, first, cs => do
    let behind? := if first then some cs else (char ',' cs).toOption
    match behind? with
    | none => return ([], cs)
    | some behind =>
      let one := do
        let (keys, rest) ← dottedKey behind
        let rest ← equalsSign rest
        let (item, rest) ← commit (value fuel depth (skipBlanks rest))
        let (path, key) := splitKey keys ⟨"", stretchTo rest rest⟩
        return ((path, key, item), skipBlanks rest)
      match ← optional one with
      | some (assignment, rest) =>
        let (others, rest) ← assignments fuel depth false rest
        return (assignment :: others, rest)
      | none => return ([], cs)

end

/-! ## Lines -/

/-- How many steps are enough to read a value. -/
def stepsFor (cs : List Char) : Nat := 2 * cs.length + 2

/-- Reads a key and its value up to the end of the line. -/
def assignmentLine (cs : List Char) : Except Failure (Assignment × List Char) := do
  let (keys, rest) ← dottedKey cs
  let rest ← equalsSign rest
  commit do
    let (item, rest) ← value (stepsFor rest) 0 (skipBlanks rest)
    let rest ← restOfLine rest
    let (path, key) := splitKey keys ⟨"", stretchTo rest rest⟩
    return ((path, key, item), rest)

/-- Reads a header between brackets up to the end of the line: its keys and its
stretch. -/
def headerLine (cs : List Char) (brackets : Nat) : Except Failure (List Key × Stretch × List Char) :=
  commit do
    let close := List.replicate brackets ']'
    let (keys, rest) ← dottedKey (cs.drop brackets)
    let behind ← expecting ["\x60.\x60", "\x60" ++ String.ofList close ++ "\x60"] (word close rest)
    return (keys, stretchTo cs behind, ← restOfLine behind)

/-- Reads a header and starts its table. -/
def header (draft : Draft) (cs : List Char) : Except Failure (Draft × List Char) :=
  naming "table header" do
    match cs with
    | [_] => stop cs
    | _ =>
      let isRepeatable := word ['[', '['] cs |>.toOption.isSome
      let (keys, stretch, rest) ← headerLine cs (if isRepeatable then 2 else 1)
      match draft.start keys isRepeatable stretch with
      | .ok draft => return (draft, rest)
      | .error cause => refuse cs cause

/-- Reads the lines that are left, each of them behind its blanks. -/
def lines : Nat → Draft → List Char → Except Failure Draft
  | 0, draft, _ => .ok draft
  | fuel + 1, draft, cs =>
    match skipBlanks cs with
    | [] => .ok draft
    | '#' :: rest => do lines fuel draft (← commit (lineEnd (skipComment ('#' :: rest))))
    | '[' :: rest => do
      let (draft, rest) ← commit (header draft ('[' :: rest))
      lines fuel draft rest
    | '\n' :: rest => lines fuel draft rest
    | '\r' :: rest => do lines fuel draft (← lineEnd ('\r' :: rest))
    | cs => do
      let ((path, key, item), rest) ← commit (assignmentLine cs)
      match draft.add path key item with
      | .ok draft => lines fuel draft rest
      | .error cause => refuse cs cause

/-- The characters after a byte order mark, if one is in front. -/
def skipByteOrderMark (cs : List Char) : List Char :=
  match cs with
  | '\uFEFF' :: rest => rest
  | _ => cs

/-- Reads the entries of a settings file. -/
def read (text : String) : Except Error Entries :=
  let cs := skipByteOrderMark text.toList
  let result := do
    let draft ← lines (cs.length + 1) {} cs
    match draft.closed with
    | .ok entries => .ok entries
    | .error cause => refuse [] cause
  match result with
  | .ok entries => .ok entries
  | .error failure => .error (failure.toError text)

end PageManifest.Toml
