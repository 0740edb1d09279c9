import PageManifest.Log.Basic
import PageManifest.Text.Blank

/-!
# Log filters

A filter is a list of directives between commas. A directive is a level, a target, or both
with an equals sign between them. It concerns the records whose origin starts with its
target; of several, the one with the longest target decides.
-/

namespace PageManifest.Log

/-- The records of an origin that starts with a target pass up to a level. -/
structure Directive where
  /-- No target concerns every record. -/
  target : Option String
  /-- The rank of the last level that passes. -/
  rank : Nat
deriving DecidableEq, Repr

namespace Directive

/-- The names of levels, with none of them first. -/
def levelNames : List String := ["off", "error", "warn", "info", "debug", "trace"]

/-- The number that digits stand for, a plus sign being allowed in front of them. -/
def number? (cs : List Char) : Option Nat :=
  let digits := if cs.head? == some '+' then cs.drop 1 else cs
  if digits.isEmpty || !digits.all Char.isDigit then none
  else some (digits.foldl (fun n c => n * 10 + (c.toNat - '0'.toNat)) 0)

/-- The rank that a text names by a word or a number. -/
def rank? (text : String) : Option Nat :=
  match number? text.toList with
  | some n => if n < levelNames.length then some n else none
  | none => levelNames.findIdx? (· == String.ofList (text.toList.map Char.toLower))

/-- Whether a directive may start with a character. -/
def mayStart (c : Char) : Bool :=
  c.isAlphanum || 0x7F < c.toNat || c == '-' || c == ':' || c == '_'

/-- What a directive says that is a single word. -/
def ofWord (text : String) : Directive :=
  match rank? text with
  | some rank => ⟨none, rank⟩
  | none => ⟨some text, Level.trace.rank⟩

/-- The directive of a target and what follows its equals sign. Without a level every
record passes. -/
def ofTarget? (target : Option String) (level : List Char) : Option Directive :=
  if level.isEmpty then some ⟨target, Level.trace.rank⟩
  else (rank? (String.ofList level)).map fun rank => ⟨target, rank⟩

/-- The target of a directive about spans of time, which no origin starts with. -/
def spanTarget : String := "["

/-- Reads a directive from the mark of its target on. Between brackets it names spans of
time, and then it concerns no record. -/
def ofMarked? (target : String) : List Char → Option Directive
  | '=' :: level => ofTarget? (some target) level
  | '[' :: rest =>
    match rest.dropWhile (· ≠ ']') with
    | _ :: '=' :: level => ofTarget? (some spanTarget) level
    | [_] => ofTarget? (some spanTarget) []
    | _ => none
  | _ => some (ofWord target)

/-- Reads a directive. Blanks around it do not count when its mark is looked for, but its
parts are cut from the text with them. -/
def ofText? (text : String) : Option Directive :=
  let cs := (Text.trim text).toList
  match cs with
  | [] => none
  | c :: _ =>
    if c ≠ '[' && !mayStart c then none
    else
      let length := (cs.takeWhile fun c => c ≠ '=' && c ≠ '[').length
      if length = cs.length then some (ofWord text)
      else
        ofMarked? (String.ofList (text.toList.take length))
          ((cs.drop length).take 1 ++ text.toList.drop (length + 1))

/-- How many characters of an origin a directive looks at, if it concerns it. -/
def reach? (directive : Directive) (origin : Origin) : Option Nat :=
  match directive.target with
  | none => some 0
  | some target =>
    if target.toList.isPrefixOf origin.name.toList then some (target.length + 1) else none

end Directive

/-- Which records pass. -/
structure Filter where
  directives : List Directive
deriving DecidableEq, Repr

namespace Filter

/-- Splits characters at commas. -/
def splitCommas : List Char → List (List Char)
  | [] => [[]]
  | c :: rest =>
    if c = ',' then [] :: splitCommas rest
    else
      match splitCommas rest with
      | [] => [[c]]
      | part :: parts => (c :: part) :: parts

/-- Records up to a level pass. -/
def upTo (level : Level) : Filter := ⟨[⟨none, level.rank⟩]⟩

/-- Reads a filter. Empty parts do not count, and without any directive errors pass. -/
def ofText? (text : String) : Option Filter := do
  let parts := (splitCommas text.toList).filter (!·.isEmpty)
  let directives ← parts.mapM fun part => Directive.ofText? (String.ofList part)
  return if directives.isEmpty then upTo .error else ⟨directives⟩

/-- The filter that a variable asks for. Without a readable one, records pass up to
those that inform. -/
def ofVariable (setting : Option String) : Filter := (setting.bind ofText?).getD (upTo .info)

/-- Whether a variable asks for a copy of the log on the error output. -/
def wantsCopy (setting : Option String) : Bool :=
  setting.any fun text => !Text.isBlankText text

/-- The rank of the last level that passes for an origin; of directives that look at
equally many characters the last one decides. -/
def rank (filter : Filter) (origin : Origin) : Nat :=
  (filter.directives.foldl (fun best directive =>
    match directive.reach? origin with
    | some reach => if best.1 ≤ reach then (reach, directive.rank) else best
    | none => best) ((0 : Nat), (0 : Nat))).2

/-- Whether a record passes. -/
def passes (filter : Filter) (record : Record) : Bool :=
  record.level.rank ≤ filter.rank record.origin

/-- The text of the records that pass. -/
def select (filter : Filter) (records : List Record) : String :=
  String.join ((records.filter filter.passes).map Record.line)

end Filter

end PageManifest.Log
