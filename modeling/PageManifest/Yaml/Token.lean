import PageManifest.Yaml.Problem

/-!
# Tokens of a YAML text

The words of a document: markers and directives, the brackets of the flow style, the
starts and ends that indentation stands for, and anchors, tags and scalars.
-/

namespace PageManifest.Yaml

/-- How a scalar is written. -/
inductive ScalarStyle where
  | plain
  | singleQuoted
  | doubleQuoted
  | literal
  | folded
deriving DecidableEq, Repr

/-- The text of a tag or a part of one. Its escapes may spell bytes that are no text. -/
structure TagText where
  text : String
  wellFormed : Bool
deriving DecidableEq, Repr

/-- The text of one part of a tag behind another. -/
def TagText.append (a b : TagText) : TagText := ⟨a.text ++ b.text, a.wellFormed && b.wellFormed⟩

/-- A word of a document. -/
inductive Token where
  | streamStart
  | streamEnd
  | versionDirective (major minor : Nat)
  | tagDirective (handle : String) (replacement : TagText)
  | documentStart
  | documentEnd
  | blockSequenceStart
  | blockMappingStart
  | blockEnd
  | flowSequenceStart
  | flowSequenceEnd
  | flowMappingStart
  | flowMappingEnd
  | blockEntry
  | flowEntry
  | key
  | value
  | alias (name : String)
  | anchor (name : String)
  | tag (handle : String) (suffix : TagText)
  | scalar (text : String) (style : ScalarStyle)
deriving DecidableEq, Repr

/-- A token, where it starts and where it ends. -/
structure Lexeme where
  token : Token
  start : Mark
  stop : Mark
deriving Repr

/-- A problem in front of a cursor, found in an activity that began at a mark. -/
def problemAt {α : Type} (problem : Problem) (activity : Activity) (began : Mark) (cur : Cursor) :
    Except Malformation α :=
  .error (.faulty problem cur.mark (some (activity, began)))

end PageManifest.Yaml
