import PageManifest.Decimal.Reader
import PageManifest.Yaml.Node
import PageManifest.Yaml.Token

/-!
# What a plain scalar stands for

A plain scalar without a tag is null, a truth value, a whole number, a floating-point
number or, failing all of these, a string. Digits behind a leading zero are a string.
-/

namespace PageManifest.Yaml

/-- Whether a text spells null. -/
def isNullWord (text : String) : Bool :=
  text == "null" || text == "Null" || text == "NULL" || text == "~"

/-- The truth value that a text spells. -/
def boolWord? (text : String) : Option Bool :=
  if text == "true" || text == "True" || text == "TRUE" then some true
  else if text == "false" || text == "False" || text == "FALSE" then some false
  else none

/-- A text without one sign in front. -/
def withoutSign : List Char → List Char
  | '-' :: cs => cs
  | '+' :: cs => cs
  | cs => cs

/-- Whether a text is a zero with further digits behind it. -/
def isPaddedNumber (cs : List Char) : Bool :=
  match withoutSign cs with
  | '0' :: c :: rest => (c :: rest).all Char.isDigit
  | _ => false

/-- The base that the letter behind a zero gives. -/
def baseOf? : Char → Option Nat
  | 'x' => some 16
  | 'o' => some 8
  | 'b' => some 2
  | _ => none

/-- The whole number that a text writes with a base in front of it. -/
def basedNumber? : List Char → Option Nat
  | '0' :: letter :: digits => (baseOf? letter).bind fun base => Decimal.digitsNumber? base digits
  | _ => none

/-- The number that a text with an optional plus sign writes. -/
def positiveNumber? (cs : List Char) : Option Nat :=
  let body := match cs with
    | '+' :: rest => rest
    | cs => cs
  match basedNumber? body with
  | some n => some n
  | none => if isPaddedNumber cs then none else Decimal.digitsNumber? 10 body

/-- The number that a text behind a minus sign writes. -/
def negativeNumber? (cs : List Char) : Option Int :=
  match cs with
  | '-' :: body =>
    match basedNumber? body with
    | some n => some (-n)
    | none =>
      if isPaddedNumber cs then none else (Decimal.digitsNumber? 10 body).map fun n => -(n : Int)
  | _ => none

/-- A whole number in the range of documents, or one that is too wide for them. -/
inductive IntReading where
  | int (value : Int)
  | wide (value : Int)
deriving Repr

/-- The whole number that a text writes. Numbers past 128 bits are not whole numbers. -/
def intWord? (cs : List Char) : Option IntReading :=
  match positiveNumber? cs with
  | some n =>
    if n < 0x10000000000000000 then some (.int n)
    else if n < 0x100000000000000000000000000000000 then some (.wide n)
    else none
  | none =>
    match negativeNumber? cs with
    | some n =>
      if -0x8000000000000000 ≤ n then some (.int n)
      else if -0x80000000000000000000000000000000 ≤ n then some (.wide n)
      else none
    | none => none

/-- The floating-point number that a text writes. -/
def floatWord? (text : String) : Option Binary64 :=
  let body? := match text.toList with
    | '+' :: '+' :: _ => none
    | '+' :: '-' :: _ => none
    | '+' :: rest => some rest
    | cs => some cs
  match body? with
  | none => none
  | some body =>
    let spelling := String.ofList body
    if spelling == ".inf" || spelling == ".Inf" || spelling == ".INF" then some (.infinity false)
    else if text == "-.inf" || text == "-.Inf" || text == "-.INF" then some (.infinity true)
    else if text == ".nan" || text == ".NaN" || text == ".NAN" then some .nan
    else
      match Decimal.number? body with
      | some x => if x.isFinite then some x else none
      | none => none

/-- What a plain scalar without a tag is, or the whole number that is too wide. -/
def resolvePlain (text : String) : Except Int Node :=
  if text.isEmpty || isNullWord text then .ok .null
  else
    match boolWord? text with
    | some b => .ok (.bool b)
    | none =>
      match intWord? text.toList with
      | some (.int n) => .ok (.int n)
      | some (.wide n) => .error n
      | none =>
        if isPaddedNumber text.toList then .ok (.string text)
        else
          match floatWord? text with
          | some x => .ok (.float x)
          | none => .ok (.string text)

end PageManifest.Yaml
