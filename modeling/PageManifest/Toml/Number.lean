import PageManifest.Decimal.Reader
import PageManifest.Toml.Attempt

/-!
# Numbers and moments of settings files

Digits may be separated by single underscores. A whole number has at most 64 bits with
its sign. A moment is a date, a time of day, or both with an offset.
-/

namespace PageManifest.Toml

/-! ## Digits -/

/-- Passes over digits, of which one must follow each underscore. -/
def digitsBehind (isDigit : Char → Bool) : List Char → Except Failure (List Char)
  | [] => .ok []
  | '_' :: c :: rest =>
    if isDigit c then digitsBehind isDigit rest
    else expecting ["digit"] (commit (stop (c :: rest)))
  | c :: rest =>
    if isDigit c then digitsBehind isDigit rest
    else if c = '_' then expecting ["digit"] (commit (stop rest))
    else .ok (c :: rest)

/-- Passes over digits, at least one of them. -/
def digits (isDigit : Char → Bool) (cs : List Char) : Except Failure (List Char) :=
  match cs with
  | c :: rest => if isDigit c then digitsBehind isDigit rest else stop cs
  | [] => stop cs

/-- The characters after a sign, if one is in front. -/
def skipSign (cs : List Char) : List Char :=
  match cs with
  | '+' :: rest => rest
  | '-' :: rest => rest
  | _ => cs

/-- Passes over a decimal whole number without leading zeros. -/
def decimal (cs : List Char) : Except Failure (List Char) :=
  naming "integer" <|
    match skipSign cs with
    | '0' :: rest => .ok rest
    | c :: rest => if c.isDigit then digitsBehind Char.isDigit rest else stop (c :: rest)
    | [] => stop []

/-- The characters that were read, without underscores. -/
def written (cs rest : List Char) : List Char :=
  (cs.take (cs.length - rest.length)).filter (· ≠ '_')

/-! ## Whole numbers -/

/-- A whole number if it has at most 64 bits with its sign. -/
def bounded (cs : List Char) (n : Int) (rest : List Char) : Except Failure (Int × List Char) :=
  if n < -0x8000000000000000 then refuse cs .numberTooSmall
  else if 0x8000000000000000 ≤ n then refuse cs .numberTooLarge
  else .ok (n, rest)

/-- Reads digits of a base behind their mark. -/
def inBase (base : Nat) (name : String) (isDigit : Char → Bool) (cs behind : List Char) :
    Except Failure (Int × List Char) := do
  let rest ← naming (name ++ " integer") (commit (digits isDigit behind))
  bounded cs ((Decimal.digitsNumber? base (written behind rest)).getD 0) rest

/-- Reads a whole number. -/
def integer (cs : List Char) : Except Failure (Int × List Char) :=
  match cs with
  | '0' :: 'x' :: rest =>
    inBase 16 "hexadecimal" (fun c => (Decimal.digitsNumber? 16 [c]).isSome) cs rest
  | '0' :: 'o' :: rest => inBase 8 "octal" (fun c => (Decimal.digitsNumber? 8 [c]).isSome) cs rest
  | '0' :: 'b' :: rest => inBase 2 "binary" (fun c => (Decimal.digitsNumber? 2 [c]).isSome) cs rest
  | _ => do
    let rest ← decimal cs
    bounded cs ((Decimal.signedNumber? (written cs rest)).getD 0) rest

/-! ## Floating-point numbers -/

/-- Passes over an exponent. -/
def exponent (cs : List Char) : Except Failure (List Char) :=
  match cs with
  | 'e' :: rest | 'E' :: rest => commit (digits Char.isDigit (skipSign rest))
  | _ => stop cs

/-- Passes over a point and the digits behind it. -/
def fraction (cs : List Char) : Except Failure (List Char) :=
  match cs with
  | '.' :: rest => expecting ["digit"] (commit (digits Char.isDigit rest))
  | _ => stop cs

/-- Passes over what makes a number a floating-point one. -/
def floatTail (cs : List Char) : Except Failure (List Char) :=
  orTry (exponent cs) do
    let rest ← fraction cs
    return (← optional (exponent rest)).getD rest

/-- The floating-point number that some characters write. -/
def floatValue (cs : List Char) : Binary64 :=
  let number := match cs with
    | '+' :: cs => Decimal.number? cs
    | cs => Decimal.number? cs
  number.getD .nan

/-- Reads an infinity or an undefined number, with an optional sign. -/
def specialFloat (cs : List Char) : Except Failure (Binary64 × List Char) :=
  let negative := cs.head? == some '-'
  match skipSign cs with
  | 'i' :: 'n' :: 'f' :: rest => .ok (.infinity negative, rest)
  | 'n' :: 'a' :: 'n' :: rest => .ok (.nan, rest)
  | _ => stop cs

/-- Reads a floating-point number. A positive one past the range is refused. -/
def float (cs : List Char) : Except Failure (Binary64 × List Char) :=
  naming "floating-point number" <| orTry
    (do
      let rest ← floatTail (← decimal cs)
      let x := floatValue (written cs rest)
      if x = .infinity false then commit (stop cs) else return (x, rest))
    (specialFloat cs)

/-! ## Moments -/

/-- Reads a number of exactly so many digits. -/
def fixedDigits (count : Nat) (cs : List Char) : Except Failure (Nat × List Char) :=
  let front := cs.take count
  if front.length = count && front.all Char.isDigit then
    .ok ((Decimal.digitsNumber? 10 front).getD 0, cs.drop count)
  else stop cs

/-- Reads a number of two digits within a range. -/
def twoDigits (least greatest : Nat) (cs : List Char) : Except Failure (Nat × List Char) := do
  let (n, rest) ← fixedDigits 2 cs
  if least ≤ n && n ≤ greatest then return (n, rest)
  else .error { rest := cs, isFinal := false, cause := some .outOfRange }

/-- How many days a month has. -/
def daysIn (year month : Nat) : Nat :=
  let isLeap := year % 4 = 0 && (year % 100 ≠ 0 || year % 400 = 0)
  if month = 2 then (if isLeap then 29 else 28)
  else if [4, 6, 9, 11].contains month then 30
  else 31

/-- Passes over a date. -/
def date (cs : List Char) : Except Failure (List Char) := do
  let (year, rest) ← fixedDigits 4 cs
  let rest ← char '-' rest
  let (month, rest) ← commit (twoDigits 1 12 rest)
  let days ← commit (char '-' rest)
  let (day, rest) ← commit (twoDigits 1 31 days)
  if daysIn year month < day then refuse days .outOfRange else return rest

/-- Passes over a fraction of a second. -/
def secondFraction (cs : List Char) : Except Failure (List Char) :=
  match cs with
  | '.' :: c :: rest => if c.isDigit then .ok (rest.dropWhile Char.isDigit) else stop cs
  | _ => stop cs

/-- Passes over a time of day. -/
def timeOfDay (cs : List Char) : Except Failure (List Char) := do
  let (_, rest) ← twoDigits 0 23 cs
  let rest ← char ':' rest
  commit do
    let (_, rest) ← twoDigits 0 59 rest
    let rest ← char ':' rest
    let (_, rest) ← twoDigits 0 60 rest
    return (← optional (secondFraction rest)).getD rest

/-- Passes over the offset of a time. -/
def timeOffset (cs : List Char) : Except Failure (List Char) :=
  naming "time offset" <|
    match cs with
    | 'Z' :: rest | 'z' :: rest => .ok rest
    | '+' :: rest | '-' :: rest => commit do
      let (_, rest) ← twoDigits 0 23 rest
      let rest ← char ':' rest
      return (← twoDigits 0 59 rest).2
    | _ => stop cs

/-- Passes over a time of day behind a date, and its offset. -/
def timeBehindDate (cs : List Char) : Except Failure (List Char) :=
  match cs with
  | 'T' :: rest | 't' :: rest | ' ' :: rest => do
    let rest ← timeOfDay rest
    return (← optional (timeOffset rest)).getD rest
  | _ => stop cs

/-- Passes over a moment. -/
def moment (cs : List Char) : Except Failure (List Char) :=
  orTry
    (naming "date-time" do
      let rest ← date cs
      return (← optional (timeBehindDate rest)).getD rest)
    (naming "time" (timeOfDay cs))

end PageManifest.Toml
