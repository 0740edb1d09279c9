import PageManifest.Json.Lexical

/-!
# Reading JSON text

`read` gives the value of a whole text, with the keys of each object in the order of
their first occurrence and the last value of a repeated key. Lists and objects may nest
`depthLimit - 1` deep.

The separators are read by `nextItem?` and `nextKey?`, which other readings of JSON text
share; `skip` passes over a value of any depth without building it.
-/

namespace PageManifest.Json

/-- One more than how deep lists and objects may nest. -/
def depthLimit : Nat := 128

/-! ## Separators -/

/-- Goes to the next item of a list, or past its end. -/
def nextItem? (first : Bool) (cs : List Char) : Except Failure (Bool × List Char) :=
  match skipSpace cs with
  | [] => failPast (.unfinished .list) []
  | ']' :: rest => .ok (false, rest)
  | c :: rest =>
    if first then .ok (true, c :: rest)
    else if c = ',' then
      match skipSpace rest with
      | [] => failPast (.unfinished .value) []
      | ']' :: after => failPast .trailingComma (']' :: after)
      | after => .ok (true, after)
    else failPast .listSeparatorExpected (c :: rest)

/-- Goes past the opening quote of an object's next key, or past the object's end. -/
def nextKey? (first : Bool) (cs : List Char) : Except Failure (Bool × List Char) :=
  match skipSpace cs with
  | [] => failPast (.unfinished .object) []
  | '}' :: rest => .ok (false, rest)
  | c :: rest =>
    if first then
      if c = '"' then .ok (true, rest) else failPast .keyNotString (c :: rest)
    else if c = ',' then
      match skipSpace rest with
      | [] => failPast (.unfinished .value) []
      | '"' :: after => .ok (true, after)
      | '}' :: after => failPast .trailingComma ('}' :: after)
      | after => failPast .keyNotString after
    else failPast .objectSeparatorExpected (c :: rest)

/-- Reads the colon behind a key. -/
def colon (cs : List Char) : Except Failure (List Char) :=
  match skipSpace cs with
  | [] => failPast (.unfinished .object) []
  | ':' :: rest => .ok rest
  | rest => failPast .colonExpected rest

/-! ## Values -/

mutual

/-- Reads a value. The first argument bounds the number of steps and the second one the
depth. -/
def value : Nat → Nat → List Char → Except Failure (Value × List Char)
  | 0, _, cs => failPast (.unfinished .value) cs
  | fuel + 1, depth, cs =>
    match skipSpace cs with
    | [] => failPast (.unfinished .value) []
    | 'n' :: rest => do return (.null, ← word ['u', 'l', 'l'] rest)
    | 't' :: rest => do return (.bool true, ← word ['r', 'u', 'e'] rest)
    | 'f' :: rest => do return (.bool false, ← word ['a', 'l', 's', 'e'] rest)
    | '"' :: rest => do
      let (text, rest) ← string rest
      return (.string text, rest)
    | '-' :: rest => do
      let (n, rest) ← number false rest
      return (.number n, rest)
    | '[' :: rest =>
      if depth ≤ 1 then failPast .tooDeep ('[' :: rest)
      else do
        let (items, rest) ← items fuel (depth - 1) true rest
        return (.sequence items, rest)
    | '{' :: rest =>
      if depth ≤ 1 then failPast .tooDeep ('{' :: rest)
      else do
        let (entries, rest) ← members fuel (depth - 1) true rest
        return (.mapping (OrderedMap.ofEntries entries), rest)
    | c :: rest =>
      if c.isDigit then do
        let (n, rest) ← number true (c :: rest)
        return (.number n, rest)
      else failPast .valueExpected (c :: rest)

/-- Reads the items of a list, and past its end. -/
def items : Nat → Nat → Bool → List Char → Except Failure (List Value × List Char)
  | 0, _, _, cs => failPast (.unfinished .list) cs
  | fuel + 1, depth, first, cs => do
    match ← nextItem? first cs with
    | (false, rest) => return ([], rest)
    | (true, rest) =>
      let (item, rest) ← value fuel depth rest
      let (others, rest) ← items fuel depth false rest
      return (item :: others, rest)

/-- Reads the members of an object as they are written, and past its end. -/
def members : Nat → Nat → Bool → List Char → Except Failure (List (String × Value) × List Char)
  | 0, _, _, cs => failPast (.unfinished .object) cs
  | fuel + 1, depth, first, cs => do
    match ← nextKey? first cs with
    | (false, rest) => return ([], rest)
    | (true, rest) =>
      let (key, rest) ← string rest
      let rest ← colon rest
      let (item, rest) ← value fuel depth rest
      let (others, rest) ← members fuel depth false rest
      return ((key, item) :: others, rest)

end

/-- How many steps are enough to read a text. -/
def stepsFor (cs : List Char) : Nat := 2 * cs.length + 2

/-- Reads a whole text by a reader of its parts. -/
def readWhole {α : Type} (reader : List Char → Except Failure (α × List Char)) (text : String) : Except Error α :=
  let result := do
    let (a, rest) ← reader text.toList
    match skipSpace rest with
    | [] => .ok a
    | rest => failPast .trailingCharacters rest
  match result with
  | .ok a => .ok a
  | .error failure => .error (failure.locate text)

/-- Reads a text that holds one value. -/
def read (text : String) : Except Error Value :=
  readWhole (fun cs => value (stepsFor cs) depthLimit cs) text

end PageManifest.Json
