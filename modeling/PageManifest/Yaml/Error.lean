import PageManifest.Decimal.Form
import PageManifest.Text.Quoted
import PageManifest.Yaml.Node
import PageManifest.Yaml.Problem

/-!
# Errors of YAML documents

A document can be malformed, or be well-formed and still not give a tree, a merge or a
value.
-/

namespace PageManifest.Yaml

/-! ## Paths -/

/-- A step from a collection to what it holds. -/
inductive PathStep where
  | index (position : Nat)
  | key (text : String)
  | unnamed
deriving Repr

/-- The steps that lead to a node, the last one first. -/
abbrev Path := List PathStep

/-- A path in words; the root is a point. -/
def Path.phrase : Path → String
  | [] => "."
  | .index position :: parent => s!"{Path.phrase parent}[{position}]"
  | .key text :: parent => (if parent.isEmpty then "" else Path.phrase parent ++ ".") ++ text
  | .unnamed :: parent => (if parent.isEmpty then "" else Path.phrase parent ++ ".") ++ "?"

/-! ## Nodes that do not fit -/

/-- Numbers as keys are positional for first digits from 10⁻⁵ to 10¹⁵, and exponents have
no plus sign. -/
def keyForm : Decimal.Form :=
  { least := some (-5), greatest := some 15, signedExponent := false, keepsPoint := true }

/-- A number that is not finite, in words. -/
def infiniteWord (x : Binary64) (infinity nan : String) : String :=
  if x.isNaN then nan else if x.isNegative then "-" ++ infinity else infinity

/-- A key that is written twice. -/
def duplicatePhrase : Node → String
  | .null => "with null key"
  | .bool b => s!"with key `{b}`"
  | .int n => s!"with key {n}"
  | .float x =>
    "with key " ++ if x.isFinite then keyForm.write x else infiniteWord x ".inf" ".nan"
  | .string text => "with key " ++ Text.Quoted.quote text
  | .sequence _ | .mapping _ | .tagged _ _ => "in YAML map"

/-- What a node is when something else is expected. -/
def foundPhrase : Node → String
  | .null => "unit value"
  | .bool b => s!"boolean `{b}`"
  | .int n => s!"integer `{n}`"
  | .float x =>
    "floating point `" ++
      (if x.isFinite then Decimal.pointed.write x else infiniteWord x "inf" "NaN") ++ "`"
  | .string text => "string " ++ Text.Quoted.quote text
  | .sequence _ => "sequence"
  | .mapping _ => "map"
  | .tagged _ _ => "enum"

/-- Why a node cannot be built. -/
inductive Misfit where
  | duplicateKey (key : Node)
  | wideInteger (value : Int)
  | badScalar (text expected : String)
deriving Repr

/-- Why a node cannot be built, in words. -/
def Misfit.phrase : Misfit → String
  | .duplicateKey key => "duplicate entry " ++ duplicatePhrase key
  | .wideInteger n =>
    let width := if n < 0 then "i128" else "u128"
    s!"invalid type: integer `{n}` as {width}, expected any YAML value"
  | .badScalar text expected =>
    "invalid value: string " ++ Text.Quoted.quote text ++ ", expected " ++ expected

/-! ## Merges -/

/-- Why a merge key cannot be resolved. -/
inductive MergeFault where
  | scalar
  | scalarItem
  | sequenceItem
  | tagged
deriving DecidableEq, Repr

/-- Why a merge key cannot be resolved, in words. -/
def MergeFault.phrase : MergeFault → String
  | .scalar => "expected a mapping or list of mappings for merging, but found scalar"
  | .scalarItem => "expected a mapping for merging, but found scalar"
  | .sequenceItem => "expected a mapping for merging, but found sequence"
  | .tagged => "unexpected tagged value in merge"

/-! ## Errors -/

/-- What a node must be to become a part of a value. -/
inductive Wanted where
  | value
  | firstKey
  | key
deriving DecidableEq, Repr

/-- What a node must be, in words. -/
def Wanted.phrase : Wanted → String
  | .value => "any valid JSON value"
  | .firstKey => "a string key"
  | .key => "a string"

/-- What is wrong with a document. -/
inductive Error where
  | malformed (malformation : Malformation)
  | unfit (misfit : Misfit) (path : Path) (mark : Mark)
  | unknownAnchor (mark : Mark)
  | tooDeep (mark : Mark)
  | tooManyAliases
  | unfinished
  | severalDocuments
  | badMerge (fault : MergeFault)
  | unsuitable (found : Node) (wanted : Wanted)
deriving Repr

/-- The text of an error. -/
def Error.message : Error → String
  | .malformed malformation => malformation.message
  | .unfit misfit path mark =>
    (if path.isEmpty then "" else path.phrase ++ ": ") ++ misfit.phrase ++ mark.suffix
  | .unknownAnchor mark => "unknown anchor" ++ mark.suffix
  | .tooDeep mark => "recursion limit exceeded" ++ mark.suffix
  | .tooManyAliases => "repetition limit exceeded"
  | .unfinished => "EOF while parsing a value"
  | .severalDocuments => "deserializing from YAML containing more than one document is not supported"
  | .badMerge fault => fault.phrase
  | .unsuitable found wanted =>
    "invalid type: " ++ foundPhrase found ++ ", expected " ++ wanted.phrase

end PageManifest.Yaml
