import PageManifest.Json.Reader

/-!
# Reading JSON text for a given type

A reader that expects one kind of value says what it found instead. Such a fault stands
behind a scalar, and in front of a list or an object, which is not read.
-/

namespace PageManifest.Json

/-! ## What was found instead -/

/-- The fault of finding another value than the expected one. -/
def mismatch (expected : String) (cs : List Char) : Failure :=
  let behind := fun (read : Except Failure (Found × List Char)) =>
    match read with
    | .ok (found, rest) => ⟨.mismatch found expected, byteCount rest⟩
    | .error failure => failure
  match cs with
  | 'n' :: rest => behind do return (.null, ← word ['u', 'l', 'l'] rest)
  | 't' :: rest => behind do return (.bool true, ← word ['r', 'u', 'e'] rest)
  | 'f' :: rest => behind do return (.bool false, ← word ['a', 'l', 's', 'e'] rest)
  | '"' :: rest => behind do
    let (text, rest) ← string rest
    return (.string text, rest)
  | '-' :: rest => behind do
    let (n, rest) ← number false rest
    return (.number n, rest)
  | '[' :: rest => ⟨.mismatch .sequence expected, byteCount ('[' :: rest)⟩
  | '{' :: rest => ⟨.mismatch .map expected, byteCount ('{' :: rest)⟩
  | c :: rest =>
    if c.isDigit then behind do
      let (n, rest) ← number true (c :: rest)
      return (.number n, rest)
    else ⟨.valueExpected, byteCount (c :: rest) - 1⟩
  | [] => ⟨.valueExpected, 0⟩

/-- Reads `true` or `false`. -/
def bool (cs : List Char) : Except Failure (Bool × List Char) :=
  match skipSpace cs with
  | [] => failPast (.unfinished .value) []
  | 't' :: rest => do return (true, ← word ['r', 'u', 'e'] rest)
  | 'f' :: rest => do return (false, ← word ['a', 'l', 's', 'e'] rest)
  | rest => .error (mismatch "a boolean" rest)

/-- Reads `null`. -/
def unit (cs : List Char) : Except Failure (List Char) :=
  match skipSpace cs with
  | [] => failPast (.unfinished .value) []
  | 'n' :: rest => word ['u', 'l', 'l'] rest
  | rest => .error (mismatch "unit" rest)

/-- Reads a string, named as the reader expects it. -/
def text (expected : String) (cs : List Char) : Except Failure (String × List Char) :=
  match skipSpace cs with
  | [] => failPast (.unfinished .value) []
  | '"' :: rest => string rest
  | rest => .error (mismatch expected rest)

/-- Reads the items of a list of strings, and past its end. -/
def textItems : Nat → Bool → List Char → Except Failure (List String × List Char)
  | 0, _, cs => failPast (.unfinished .list) cs
  | fuel + 1, first, cs => do
    match ← nextItem? first cs with
    | (false, rest) => return ([], rest)
    | (true, rest) =>
      let (item, rest) ← text "a string" rest
      let (others, rest) ← textItems fuel false rest
      return (item :: others, rest)

/-- Reads a list of strings. -/
def texts (cs : List Char) : Except Failure (List String × List Char) :=
  match skipSpace cs with
  | [] => failPast (.unfinished .value) []
  | '[' :: rest => textItems (stepsFor cs) true rest
  | rest => .error (mismatch "a sequence" rest)

/-- Reads an object as the entries of a mapping. -/
def object (cs : List Char) : Except Failure (OrderedMap String Value × List Char) :=
  match skipSpace cs with
  | [] => failPast (.unfinished .value) []
  | '{' :: rest => do
    let (entries, rest) ← members (stepsFor cs) (depthLimit - 1) true rest
    return (OrderedMap.ofEntries entries, rest)
  | rest => .error (mismatch "a map" rest)

/-! ## Passing over a value -/

/-- Passes over an escape behind its backslash. The number of a character is not
looked at. -/
def skipEscape (cs : List Char) : Except Failure (List Char) :=
  match cs with
  | [] => failAt (.unfinished .string) []
  | 'u' :: rest => do return (← hexEscape rest).2
  | c :: rest =>
    if (shortEscape? c).isSome then .ok rest else failPast .badEscape (c :: rest)

/-- Passes over the characters of a string and its closing quote. -/
def skipStringChars : Nat → List Char → Except Failure (List Char)
  | 0, rest => failAt (.unfinished .string) rest
  | _ + 1, [] => failAt (.unfinished .string) []
  | _ + 1, '"' :: rest => .ok rest
  | fuel + 1, '\\' :: rest => do skipStringChars fuel (← skipEscape rest)
  | fuel + 1, c :: rest =>
    if c.toNat < 0x20 then failAt .controlInString (c :: rest) else skipStringChars fuel rest

/-- Passes over a string behind its opening quote. -/
def skipString (cs : List Char) : Except Failure (List Char) :=
  skipStringChars (cs.length + 1) cs

/-- Passes over an exponent behind its mark. -/
def skipExponent (cs : List Char) : Except Failure (List Char) :=
  let cs := match cs with
    | '+' :: rest => rest
    | '-' :: rest => rest
    | rest => rest
  if startsWithDigit cs then .ok (skipDigits cs) else failPast .badNumber cs

/-- Passes over an exponent if its mark follows. -/
def skipExponentOrEnd (cs : List Char) : Except Failure (List Char) :=
  match cs with
  | 'e' :: rest | 'E' :: rest => skipExponent rest
  | rest => .ok rest

/-- Passes over what may follow the digits of a whole number. -/
def skipAfterInteger (cs : List Char) : Except Failure (List Char) :=
  match cs with
  | '.' :: rest =>
    if startsWithDigit rest then skipExponentOrEnd (skipDigits rest) else failPast .badNumber rest
  | rest => skipExponentOrEnd rest

/-- Passes over a number without its sign. -/
def skipNumber (cs : List Char) : Except Failure (List Char) :=
  match cs with
  | '0' :: rest => if startsWithDigit rest then failPast .badNumber rest else skipAfterInteger rest
  | rest => if startsWithDigit rest then skipAfterInteger (skipDigits rest) else failPast .badNumber rest

/-- What encloses a value that is passed over. -/
inductive Bracket where
  | list
  | object
deriving DecidableEq, Repr

/-- The part that is unfinished when its bracket is not closed. -/
def Bracket.part : Bracket → Part
  | .list => .list
  | .object => .object

/-- The fault of a missing separator. -/
def Bracket.separatorFault : Bracket → Fault
  | .list => .listSeparatorExpected
  | .object => .objectSeparatorExpected

/-- The closing character. -/
def Bracket.close : Bracket → Char
  | .list => ']'
  | .object => '}'

/-- Passes over the key of a member and its colon. -/
def skipKey (bracket : Bracket) (cs : List Char) : Except Failure (List Char) :=
  match bracket with
  | .list => .ok cs
  | .object =>
    match skipSpace cs with
    | [] => failPast (.unfinished .object) []
    | '"' :: rest => do colon (← skipString rest)
    | rest => failPast .keyNotString rest

/-- Passes over the end of a value and of the brackets that close behind it: what is
still open, and what is left. A comma is accepted only behind a value. -/
def skipClosings : Bool → List Bracket → List Char → Except Failure (List Bracket × List Char)
  | _, [], cs => .ok ([], cs)
  | commaAccepted, bracket :: outer, cs =>
    match skipSpace cs with
    | [] => failPast (.unfinished bracket.part) []
    | c :: rest =>
      if commaAccepted && c = ',' then .ok (bracket :: outer, rest)
      else if c = bracket.close then skipClosings true outer rest
      else if commaAccepted then failPast bracket.separatorFault (c :: rest)
      else .ok (bracket :: outer, c :: rest)

/-- Passes over a value inside brackets, and over all that follows in them. -/
def skipValues : Nat → List Bracket → List Char → Except Failure (List Char)
  | 0, _, cs => failPast (.unfinished .value) cs
  | fuel + 1, enclosing, cs =>
    let close := fun (commaAccepted : Bool) (brackets : List Bracket) (rest : List Char) => do
      match ← skipClosings commaAccepted brackets rest with
      | ([], rest) => return rest
      | (bracket :: outer, rest) => skipValues fuel (bracket :: outer) (← skipKey bracket rest)
    match skipSpace cs with
    | [] => failPast (.unfinished .value) []
    | 'n' :: rest => do close true enclosing (← word ['u', 'l', 'l'] rest)
    | 't' :: rest => do close true enclosing (← word ['r', 'u', 'e'] rest)
    | 'f' :: rest => do close true enclosing (← word ['a', 'l', 's', 'e'] rest)
    | '"' :: rest => do close true enclosing (← skipString rest)
    | '-' :: rest => do close true enclosing (← skipNumber rest)
    | '[' :: rest => close false (.list :: enclosing) rest
    | '{' :: rest => close false (.object :: enclosing) rest
    | c :: rest =>
      if c.isDigit then do close true enclosing (← skipNumber (c :: rest))
      else failPast .valueExpected (c :: rest)

/-- Passes over one value of any depth. -/
def skip (cs : List Char) : Except Failure (List Char) := skipValues (stepsFor cs) [] cs

end PageManifest.Json
