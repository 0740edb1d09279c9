import PageManifest.Decimal.Shortest

/-!
# Decimal forms

How a finite number is written once its digits are known: which exponents are written
positionally, whether an integral number keeps its point, and how an exponent is marked.
-/

namespace PageManifest.Decimal

/-- The choices of a format that writes numbers. Exponents are those of the first
digit. -/
structure Form where
  /-- Smallest exponent that is written positionally, if there is one. -/
  least : Option Int
  /-- Largest exponent that is written positionally, if there is one. -/
  greatest : Option Int
  /-- Whether an exponent that is not negative has a sign. -/
  signedExponent : Bool
  /-- Whether an integral number in positional form ends in `.0`. -/
  keepsPoint : Bool

namespace Form

/-- Whether a number whose first digit has this exponent is written positionally. -/
def isPositional (form : Form) (lead : Int) : Bool :=
  form.least.all (· ≤ lead) && form.greatest.all (lead ≤ ·)

/-- Digits with a point after the first `lead + 1` of them. -/
def positional (form : Form) (digits : List Char) (lead : Int) : List Char :=
  let count := digits.length
  match lead with
  | .ofNat l =>
    if l + 1 < count then digits.take (l + 1) ++ '.' :: digits.drop (l + 1)
    else
      let whole := digits ++ List.replicate (l + 1 - count) '0'
      if form.keepsPoint then whole ++ ['.', '0'] else whole
  | .negSucc l => '0' :: '.' :: List.replicate l '0' ++ digits

/-- Digits with a point after the first one, and an exponent. -/
def scientific (form : Form) (digits : List Char) (lead : Int) : List Char :=
  let mantissa := match digits with
    | [] => []
    | [d] => [d]
    | d :: rest => d :: '.' :: rest
  let exponent := match lead with
    | .ofNat l => (if form.signedExponent then ['+'] else []) ++ Nat.toDigits 10 l
    | .negSucc l => '-' :: Nat.toDigits 10 (l + 1)
  mantissa ++ 'e' :: exponent

/-- The text of a finite number. -/
def write (form : Form) (x : Binary64) : String :=
  let sign := if x.isNegative then ['-'] else []
  let number := shortest x
  let digits := Nat.toDigits 10 number.digits
  let lead := number.exponent + digits.length - 1
  String.ofList <| sign ++
    if number.digits = 0 || form.isPositional lead then form.positional digits lead
    else form.scientific digits lead

end Form

/-- Every digit is written out, and an integral number has no point. -/
def plain : Form := ⟨none, none, false, false⟩

/-- Every digit is written out, and an integral number keeps its point. -/
def pointed : Form := ⟨none, none, false, true⟩

end PageManifest.Decimal
