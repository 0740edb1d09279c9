import PageManifest.Binary64
import PageManifest.OrderedMap

/-!
# Values

The tree of which a page description is made: scalars, sequences, and mappings from text
keys to values in order. A mapping is meant to hold each key once, at every depth
(`Value.DistinctKeys`).
-/

namespace PageManifest

/-- A number is a whole number or a floating-point number; the two never mix. -/
inductive Number where
  | int (value : Int)
  | float (value : Binary64)
deriving DecidableEq, Repr

namespace Number

/-- The least whole number that a document may hold. -/
def leastInt : Int := -0x8000000000000000

/-- The greatest whole number that a document may hold. -/
def greatestInt : Int := 0xFFFFFFFFFFFFFFFF

/-- Two numbers are the same: whole numbers by value, the others by comparison. -/
def same : Number → Number → Bool
  | .int m, .int n => m == n
  | .float x, .float y => x.same y
  | _, _ => false

end Number

/-- A tree of scalars, sequences and mappings. -/
inductive Value where
  | null
  | bool (value : Bool)
  | number (value : Number)
  | string (value : String)
  | sequence (items : List Value)
  | mapping (entries : List (String × Value))
deriving Repr, Inhabited

namespace Value

/-- The entries of a mapping. -/
def entries? : Value → Option (OrderedMap String Value)
  | .mapping entries => some entries
  | _ => none

/-- The text of a string. -/
def text? : Value → Option String
  | .string text => some text
  | _ => none

/-- What a value is, in words. -/
def kind : Value → String
  | .null => "null"
  | .bool _ => "a boolean"
  | .number _ => "a number"
  | .string _ => "a string"
  | .sequence _ => "a sequence"
  | .mapping _ => "a mapping"

/-! ## Sameness -/

mutual

/-- Two values are the same up to the order of mapping entries. -/
def same : Value → Value → Bool
  | .null, .null => true
  | .bool a, .bool b => a == b
  | .number a, .number b => a.same b
  | .string a, .string b => a == b
  | .sequence xs, .sequence ys => sameItems xs ys
  | .mapping xs, .mapping ys => xs.length == ys.length && sameEntries xs ys
  | _, _ => false

/-- Two lists of values are the same, place by place. -/
def sameItems : List Value → List Value → Bool
  | [], [] => true
  | x :: xs, y :: ys => x.same y && sameItems xs ys
  | _, _ => false

/-- Every entry has the same value under its key in the second mapping. -/
def sameEntries : List (String × Value) → List (String × Value) → Bool
  | [], _ => true
  | (key, x) :: xs, ys =>
    (match OrderedMap.get? ys key with
      | some y => x.same y
      | none => false) && sameEntries xs ys

end

/-! ## Shape -/

mutual

/-- How deep sequences and mappings nest, the value itself counted. -/
def depth : Value → Nat
  | .sequence items => depthItems items + 1
  | .mapping entries => depthEntries entries + 1
  | _ => 0

/-- The greatest depth in a list of values. -/
def depthItems : List Value → Nat
  | [] => 0
  | x :: xs => max x.depth (depthItems xs)

/-- The greatest depth among the values of a mapping. -/
def depthEntries : List (String × Value) → Nat
  | [] => 0
  | (_, x) :: xs => max x.depth (depthEntries xs)

end

mutual

/-- Every mapping holds each key once, at every depth. -/
def DistinctKeys : Value → Prop
  | .sequence items => DistinctKeysItems items
  | .mapping entries => (OrderedMap.keys entries).Nodup ∧ DistinctKeysEntries entries
  | _ => True

/-- Every value of a list has distinct keys at every depth. -/
def DistinctKeysItems : List Value → Prop
  | [] => True
  | x :: xs => x.DistinctKeys ∧ DistinctKeysItems xs

/-- Every value of a mapping has distinct keys at every depth. -/
def DistinctKeysEntries : List (String × Value) → Prop
  | [] => True
  | (_, x) :: xs => x.DistinctKeys ∧ DistinctKeysEntries xs

end

end Value

end PageManifest
