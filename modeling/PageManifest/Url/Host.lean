import PageManifest.Url.Percent

/-!
# Hosts of addresses

A host is a name or a number. A name whose last label is a number has to be an IPv4
address, and one between brackets an IPv6 address. Names are ASCII and in small letters,
full-width forms being made narrow.
-/

namespace PageManifest.Url

/-- What is wrong with an address. -/
inductive Fault where
  | emptyHost
  | badName
  | badPort
  | badIpv4
  | badIpv6
  | badNameCharacter
  | withoutBase
  | opaqueBase
deriving DecidableEq, Repr

/-- What is wrong, in words. -/
def Fault.message : Fault → String
  | .emptyHost => "empty host"
  | .badName => "invalid international domain name"
  | .badPort => "invalid port number"
  | .badIpv4 => "invalid IPv4 address"
  | .badIpv6 => "invalid IPv6 address"
  | .badNameCharacter => "invalid domain character"
  | .withoutBase => "relative URL without a base"
  | .opaqueBase => "relative URL with a cannot-be-a-base base"

/-- Where a server is found. -/
inductive Host where
  | name (text : String)
  | ipv4 (number : Nat)
  | ipv6 (groups : List Nat)
deriving DecidableEq, Repr

namespace Host

/-- Splits characters at each occurrence of one of them. -/
def splitAt (separator : Char) : List Char → List (List Char)
  | [] => [[]]
  | c :: rest =>
    if c = separator then [] :: splitAt separator rest
    else
      match splitAt separator rest with
      | [] => [[c]]
      | part :: parts => (c :: part) :: parts

/-! ## IPv4 -/

/-- The value of digits in a base, if there are any and all are digits of it. -/
def digits? (base : Nat) (cs : List Char) : Option Nat :=
  if cs.isEmpty then none
  else cs.foldlM (fun acc c => do
    let digit ← Text.hexValue? c
    if digit < base then some (acc * base + digit) else none) 0

/-- The value of one part of an IPv4 address: hexadecimal behind `0x`, octal behind
`0`. -/
def ipv4Part? : List Char → Option Nat
  | '0' :: 'x' :: rest | '0' :: 'X' :: rest => if rest.isEmpty then some 0 else digits? 16 rest
  | '0' :: c :: rest => digits? 8 (c :: rest)
  | cs => digits? 10 cs

/-- The parts of a dotted text, without an empty one at its end. -/
def dottedParts (cs : List Char) : List (List Char) :=
  let parts := splitAt '.' cs
  if 1 < parts.length && parts.getLast? == some [] then parts.dropLast else parts

/-- Whether the last part of a dotted text is a number. -/
def endsInNumber (cs : List Char) : Bool :=
  match (dottedParts cs).getLast? with
  | some last => (!last.isEmpty && last.all Char.isDigit) || (ipv4Part? last).isSome
  | none => false

/-- The number of an IPv4 address. The last part fills what the others leave. -/
def ipv4? (cs : List Char) : Option Nat := do
  let parts := dottedParts cs
  if 4 < parts.length then none
  else
    let numbers ← parts.mapM ipv4Part?
    let last ← numbers.getLast?
    let before := numbers.dropLast
    if Nat.pow 256 (4 - before.length) ≤ last || before.any (255 < ·) then none
    else some ((before.foldl (fun acc n => acc * 256 + n) 0) * Nat.pow 256 (4 - before.length) + last)

/-- An IPv4 address in dotted form. -/
def ipv4Text (n : Nat) : String :=
  ".".intercalate ([n / 0x1000000, n / 0x10000 % 256, n / 0x100 % 256, n % 256].map toString)

/-! ## IPv6 -/

/-- The value of a part of the dotted end of an IPv6 address: decimal without leading
zeros. -/
def octet? (cs : List Char) : Option Nat := do
  let n ← digits? 10 cs
  if 255 < n || (1 < cs.length && cs.head? == some '0') then none else some n

/-- The groups that the dotted end of an IPv6 address stands for. -/
def dottedGroups? (cs : List Char) : Option (List Nat) := do
  match ← (splitAt '.' cs).mapM octet? with
  | [a, b, c, d] => some [a * 256 + b, c * 256 + d]
  | _ => none

/-- The value of a group: one to four hexadecimal digits. -/
def group? (cs : List Char) : Option Nat := if 4 < cs.length then none else digits? 16 cs

/-- The groups on one side of an omission. Only the last one may be dotted. -/
def groups? : List (List Char) → Option (List Nat)
  | [] => some []
  | [last] => if last.contains '.' then dottedGroups? last else return [← group? last]
  | cs :: rest => do return (← group? cs) :: (← groups? rest)

/-- Splits characters at the first pair of colons. -/
def splitOmission : List Char → Option (List Char × List Char)
  | ':' :: ':' :: rest => some ([], rest)
  | c :: rest => do
    let (left, right) ← splitOmission rest
    return (c :: left, right)
  | [] => none

/-- The groups of a text, none for an empty one. -/
def side? (cs : List Char) : Option (List Nat) :=
  if cs.isEmpty then some [] else groups? (splitAt ':' cs)

/-- The eight groups of an IPv6 address. An omission stands for at least one group. -/
def ipv6? (cs : List Char) : Option (List Nat) := do
  match splitOmission cs with
  | none =>
    let groups ← side? cs
    if groups.length = 8 then some groups else none
  | some (left, right) =>
    let before ← (if left.contains '.' then none else side? left)
    let after ← side? right
    if 7 < before.length + after.length then none
    else some (before ++ List.replicate (8 - before.length - after.length) 0 ++ after)

/-- The longest run of zero groups: its start and its length. The first one wins. -/
def longestZeros (groups : List Nat) : Nat × Nat :=
  (List.range groups.length).foldl (fun best start =>
    let length := ((groups.drop start).takeWhile (· == 0)).length
    if best.2 < length then (start, length) else best) (0, 0)

/-- A group in hexadecimal digits. -/
def groupText (n : Nat) : String := String.ofList (Nat.toDigits 16 n)

/-- An IPv6 address between brackets, the longest run of zero groups being left out if
it has two or more. -/
def ipv6Text (groups : List Nat) : String :=
  let (start, length) := longestZeros groups
  let text := fun groups => ":".intercalate (groups.map groupText)
  if length < 2 then "[" ++ text groups ++ "]"
  else "[" ++ text (groups.take start) ++ "::" ++ text (groups.drop (start + length)) ++ "]"

/-! ## Hosts -/

/-- The ASCII character that a full-width form stands for, and the full stop that an
ideographic one stands for. Other characters stand for themselves. -/
def narrow (c : Char) : Char :=
  if '\uFF01' ≤ c && c ≤ '\uFF5E' then Char.ofNat (c.toNat - 0xFEE0)
  else if c == '\u3002' || c == '\uFF61' then '.'
  else c

/-- Whether a character may not stand in a host. -/
def isForbidden (c : Char) : Bool := "\x00\t\n\r #/:<>?@[\\]^|".toList.contains c

/-- Whether a character may not stand in a name. -/
def isForbiddenInName (c : Char) : Bool := isForbidden c || Percent.isControl c || c == '%'

/-- The host between brackets. -/
def bracketed (cs : List Char) : Except Fault Host :=
  if cs.getLast? == some ']' then
    match ipv6? (cs.drop 1).dropLast with
    | some groups => .ok (.ipv6 groups)
    | none => .error .badIpv6
  else .error .badIpv6

/-- The host of an address whose scheme is a common one. -/
def ofCommon (cs : List Char) : Except Fault Host :=
  if cs.head? == some '[' then bracketed cs
  else
    let name := (Text.Utf8.decodeChars (Percent.decode cs)).map fun c => (narrow c).toLower
    if name.isEmpty then .error .emptyHost
    else if name.any fun c => isForbiddenInName c || 0x7F < c.toNat then .error .badName
    else if endsInNumber name then
      match ipv4? name with
      | some n => .ok (.ipv4 n)
      | none => .error .badIpv4
    else .ok (.name (String.ofList name))

/-- The host of an address with another scheme. -/
def ofOther (cs : List Char) : Except Fault Host :=
  if cs.head? == some '[' then bracketed cs
  else if cs.any isForbidden then .error .badNameCharacter
  else .ok (.name (String.ofList (Percent.encode Percent.isControl cs)))

/-- A host as it stands in an address. -/
def text : Host → String
  | .name text => text
  | .ipv4 n => ipv4Text n
  | .ipv6 groups => ipv6Text groups

end Host

end PageManifest.Url
