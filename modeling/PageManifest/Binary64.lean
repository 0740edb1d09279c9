/-!
# Binary floating point on 64 bits

A number of the binary format with 53 significant bits is its bit pattern. Its finite
magnitudes are the integer multiples of the smallest subnormal `2⁻¹⁰⁷⁴`, so a magnitude
is a natural number of such units, and rounding is exact arithmetic on natural numbers:
`ofRatio` gives the nearest magnitude, a tie going to the even significand.
-/

namespace PageManifest

/-- A floating-point number, as its bits. -/
structure Binary64 where
  bits : UInt64
deriving DecidableEq, Repr, Inhabited

namespace Binary64

/-! ## Fields -/

/-- The sign bit. -/
def isNegative (x : Binary64) : Bool := x.bits >>> 63 == 1

/-- The exponent field. -/
def exponentField (x : Binary64) : Nat := ((x.bits >>> 52) &&& 0x7FF).toNat

/-- The fraction field. -/
def fractionField (x : Binary64) : Nat := (x.bits &&& 0xFFFFFFFFFFFFF).toNat

/-- Whether the number is neither infinite nor undefined. -/
def isFinite (x : Binary64) : Bool := x.exponentField != 0x7FF

/-- Whether the number is undefined. -/
def isNaN (x : Binary64) : Bool := x.exponentField == 0x7FF && x.fractionField != 0

/-- The significand of a finite number, hidden bit included. -/
def significand (x : Binary64) : Nat :=
  if x.exponentField = 0 then x.fractionField else 0x10000000000000 + x.fractionField

/-- How far the significand is shifted left, in units of the smallest subnormal. -/
def shift (x : Binary64) : Nat := x.exponentField - 1

/-- The magnitude of a finite number, in units of the smallest subnormal. -/
def magnitude (x : Binary64) : Nat := x.significand * Nat.pow 2 x.shift

/-- Two numbers compare as equal: the zeros are equal and an undefined number differs
from everything. -/
def same (x y : Binary64) : Bool :=
  !x.isNaN && !y.isNaN && (x.bits == y.bits ||
    (x.isFinite && y.isFinite && x.magnitude == 0 && y.magnitude == 0))

/-! ## Rounding -/

/-- The quotient nearest to `num / den`; a half goes to the even neighbour. -/
def nearestQuotient (num den : Nat) : Nat :=
  let quotient := num / den
  let twice := 2 * (num % den)
  if twice < den then quotient
  else if den < twice then quotient + 1
  else quotient + quotient % 2

/-- The number with a given sign, significand and shift. A significand of `2 ^ 53`
carries into the exponent, and an exponent past the range gives an infinity. -/
def assemble (negative : Bool) (significand shift : Nat) : Binary64 :=
  let magnitude := if significand < 0x10000000000000 then significand else shift * 0x10000000000000 + significand
  let bounded := min magnitude 0x7FF0000000000000
  ⟨UInt64.ofNat (bounded + if negative then 0x8000000000000000 else 0)⟩

/-- The number nearest to `num / den`, with a given sign. -/
def ofRatio (negative : Bool) (num den : Nat) : Binary64 :=
  let units := num * Nat.pow 2 1074
  let shift := (units / den).log2 - 52
  assemble negative (nearestQuotient units (den * Nat.pow 2 shift)) shift

/-- The zero of a given sign. -/
def zero (negative : Bool) : Binary64 := assemble negative 0 0

/-- The infinity of a given sign. -/
def infinity (negative : Bool) : Binary64 := assemble negative 0x20000000000000 0x7FF

/-- The undefined number, with sign bit zero. -/
def nan : Binary64 := ⟨0x7FF8000000000000⟩

/-- The number nearest to a natural number. -/
def ofNat (n : Nat) : Binary64 := ofRatio false n 1

/-- The number with the other sign. -/
def neg (x : Binary64) : Binary64 := ⟨x.bits ^^^ 0x8000000000000000⟩

/-- The rounded product of two finite numbers. -/
def mul (x y : Binary64) : Binary64 :=
  ofRatio (x.isNegative != y.isNegative) (x.magnitude * y.magnitude) (Nat.pow 2 2148)

/-- The rounded quotient of two finite numbers, the second not zero. -/
def div (x y : Binary64) : Binary64 :=
  ofRatio (x.isNegative != y.isNegative) x.magnitude y.magnitude

/-- The number of decimal digits of a natural number that is not zero. -/
def digitCount (n : Nat) : Nat := (Nat.toDigits 10 n).length

/-- The number nearest to `digits · 10 ^ exponent`. Exponents far outside the range are
decided by the position of the first digit alone. -/
def ofDecimal (negative : Bool) (digits : Nat) (exponent : Int) : Binary64 :=
  if digits = 0 then zero negative
  else
    let lead := exponent + digitCount digits
    if lead > 400 then infinity negative
    else if lead < -400 then zero negative
    else match exponent with
      | .ofNat e => ofRatio negative (digits * Nat.pow 10 e) 1
      | .negSucc e => ofRatio negative digits (Nat.pow 10 (e + 1))

end Binary64

end PageManifest
