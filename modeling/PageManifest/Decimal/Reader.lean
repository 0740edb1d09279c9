import PageManifest.Binary64

/-!
# Reading decimal numbers

Digits with an optional point among or around them and an optional exponent, rounded
once to the nearest floating-point number.
-/

namespace PageManifest.Decimal

/-- The number that some digits write in a base, if all of them are digits and there is
one. -/
def digitsNumber? (base : Nat) (cs : List Char) : Option Nat :=
  let digit? := fun (c : Char) =>
    let n :=
      if c.isDigit then c.toNat - '0'.toNat
      else if 'a' ≤ c && c ≤ 'z' then c.toNat - 'a'.toNat + 10
      else if 'A' ≤ c && c ≤ 'Z' then c.toNat - 'A'.toNat + 10
      else base
    if n < base then some n else none
  if cs.isEmpty then none
  else cs.foldlM (fun acc c => (digit? c).map (acc * base + ·)) 0

/-- The whole number with an optional sign that a text writes in base ten. -/
def signedNumber? : List Char → Option Int
  | '-' :: digits => (digitsNumber? 10 digits).map fun n => -(n : Int)
  | '+' :: digits => (digitsNumber? 10 digits).map fun n => (n : Int)
  | digits => (digitsNumber? 10 digits).map fun n => (n : Int)

/-- The number that a text without its sign writes. -/
def unsigned? (negative : Bool) (cs : List Char) : Option Binary64 :=
  let whole := cs.takeWhile Char.isDigit
  let rest := cs.dropWhile Char.isDigit
  let (fraction, rest) := match rest with
    | '.' :: rest => (rest.takeWhile Char.isDigit, rest.dropWhile Char.isDigit)
    | rest => ([], rest)
  let exponent? := match rest with
    | [] => some 0
    | 'e' :: rest | 'E' :: rest => signedNumber? rest
    | _ => none
  if whole.isEmpty && fraction.isEmpty then none
  else do
    let exponent ← exponent?
    let digits ← digitsNumber? 10 (whole ++ fraction)
    return .ofDecimal negative digits (exponent - fraction.length)

/-- The number that a text with an optional minus sign writes. -/
def number? : List Char → Option Binary64
  | '-' :: cs => unsigned? true cs
  | cs => unsigned? false cs

end PageManifest.Decimal
