import PageManifest.Binary64

/-!
# The shortest decimal that reads back

Every finite magnitude is the nearest one to an interval of reals, which holds its ends
when the significand is even. The shortest decimal of a magnitude is the point of the
coarsest decimal grid that lies in the interval; of two such points the nearer one is
taken, and the even one when both are equally near.
-/

namespace PageManifest.Decimal

/-- A decimal number `digits · 10 ^ exponent`. -/
structure Digits where
  digits : Nat
  exponent : Int
deriving DecidableEq, Repr

/-- The reals that round to one magnitude, as fractions over one denominator. -/
structure Interval where
  lower : Nat
  value : Nat
  upper : Nat
  scale : Nat
  closed : Bool

namespace Interval

/-- Whether the fraction `num / scale` lies in the interval. -/
def holds (i : Interval) (num : Nat) : Bool :=
  if i.closed then i.lower ≤ num && num ≤ i.upper else i.lower < num && num < i.upper

/-- The interval of a finite number that is not zero. Below a power of two the
neighbour is only half as far away. -/
def ofBinary64 (x : Binary64) : Interval :=
  let step := Nat.pow 2 x.shift
  let below := if x.fractionField = 0 && x.exponentField > 1 then step else 2 * step
  { lower := 4 * x.magnitude - below
    value := 4 * x.magnitude
    upper := 4 * x.magnitude + 2 * step
    scale := 4 * Nat.pow 2 1074
    closed := x.significand % 2 == 0 }

/-- The grid point nearest to the value among those in the interval, when the grid has
the step `10 ^ exponent`. -/
def onGrid? (i : Interval) (exponent : Int) : Option Digits :=
  let grow := Nat.pow 10 exponent.toNat * i.scale
  let shrink := Nat.pow 10 (-exponent).toNat
  let point := fun (n : Nat) => n * grow
  let value := i.value * shrink
  let scaled : Interval :=
    { i with lower := i.lower * shrink, value := value, upper := i.upper * shrink }
  let below := value / grow
  let above := below + 1
  match scaled.holds (point below), scaled.holds (point above) with
  | false, false => none
  | true, false => some ⟨below, exponent⟩
  | false, true => some ⟨above, exponent⟩
  | true, true =>
    let down := value - point below
    let up := point above - value
    if down < up then some ⟨below, exponent⟩
    else if up < down then some ⟨above, exponent⟩
    else if below % 2 = 0 then some ⟨below, exponent⟩ else some ⟨above, exponent⟩

/-- The first grid point found on ever finer grids, at most `count` of them. -/
def search (i : Interval) (exponent : Int) : Nat → Option Digits
  | 0 => none
  | count + 1 =>
    match i.onGrid? exponent with
    | some found => some found
    | none => i.search (exponent - 1) count

end Interval

/-- An exponent of ten that is at least the one of the value's first digit. -/
def leadBound (x : Binary64) : Int :=
  ((x.magnitude.log2 : Int) - 1074) * 30103 / 100000 + 1

/-- The shortest decimal of a finite number; its sign is left out. -/
def shortest (x : Binary64) : Digits :=
  if x.magnitude = 0 then ⟨0, 0⟩
  else ((Interval.ofBinary64 x).search (leadBound x) 20).getD ⟨0, 0⟩

end PageManifest.Decimal
